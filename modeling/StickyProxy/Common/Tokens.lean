import Mathlib.Data.List.Count
import Mathlib.Data.List.Perm.Basic
/-!
# A pool of tokens

Tokens are taken from a pool and returned to it. A pool may hand out a new
token whatever it holds, and may forget a token it holds; so a token that
was taken is not bound to come back. The books list every taking and every
return. What they rule out is that a token is returned once more than it
was taken, and what follows is that nobody else has a token that the pool
has, or that somebody has.
-/

namespace StickyProxy

/-- A pool of tokens, numbered in the order they are made in, with its
books. -/
structure Tokens where
  /-- The tokens in the pool. -/
  free : List ℕ
  /-- The number of the next new token. -/
  made : ℕ
  taken : List ℕ
  returned : List ℕ

namespace Tokens

def empty : Tokens := ⟨[], 0, [], []⟩

/-- A token is taken: a new one, or the one at a place of the pool. -/
def get (l : Tokens) : Option ℕ → Option (ℕ × Tokens)
  | none => some (l.made, { l with made := l.made + 1, taken := l.taken ++ [l.made] })
  | some i => (l.free[i]?).map fun b =>
      (b, { l with free := l.free.eraseIdx i, taken := l.taken ++ [b] })

def put (l : Tokens) (bs : List ℕ) : Tokens :=
  { l with free := l.free ++ bs, returned := l.returned ++ bs }

def forget (l : Tokens) (i : ℕ) : Tokens := { l with free := l.free.eraseIdx i }

/-- The books are in order when `out` says how often each token is in use. -/
structure Accounts (l : Tokens) (out : ℕ → ℕ) : Prop where
  /-- A token in use was taken, and has not been returned since. -/
  out_le : ∀ b, out b + l.returned.count b ≤ l.taken.count b
  /-- A token in the pool was returned, and has not been taken since. -/
  free_le : ∀ b, l.taken.count b + l.free.count b ≤ l.returned.count b + 1
  unmade : ∀ b, l.made ≤ b → l.taken.count b = 0 ∧ l.free.count b = 0

variable {l l' : Tokens} {out out' : ℕ → ℕ} {b : ℕ}

theorem accounts_empty : empty.Accounts fun _ => 0 where
  out_le _ := Nat.le_refl _
  free_le _ := Nat.zero_le _
  unmade _ _ := ⟨rfl, rfl⟩

/-- Tokens may get lost. -/
theorem Accounts.mono (h : l.Accounts out) (hle : ∀ b, out' b ≤ out b) : l.Accounts out' :=
  { h with out_le := fun b => Nat.le_trans (Nat.add_le_add_right (hle b) _) (h.out_le b) }

theorem count_singleton_eq_zero {c : ℕ} (h : b ≠ c) : [b].count c = 0 :=
  List.count_eq_zero_of_not_mem fun hmem => h (List.mem_singleton.1 hmem).symm

/-- The one at a place of a list, and the others. -/
theorem count_eraseIdx_add {bs : List ℕ} {i : ℕ} (h : bs[i]? = some b) (c : ℕ) :
    (bs.eraseIdx i).count c + [b].count c = bs.count c := by
  obtain ⟨hi, rfl⟩ := List.getElem?_eq_some_iff.1 h
  rw [← (List.getElem_cons_eraseIdx_perm hi).count_eq c, List.count_singleton, List.count_cons]

/-- A token is taken. -/
theorem Accounts.get {choice : Option ℕ} (h : l.Accounts out) (hget : l.get choice = some (b, l'))
    (hout : ∀ c, out' c ≤ out c + [b].count c) : l'.Accounts out' := by
  cases choice with
  | none =>
    obtain ⟨rfl, rfl⟩ : l.made = b ∧ _ = l' := by simpa only [Tokens.get, Option.some.injEq,
      Prod.mk.injEq] using hget
    refine ⟨fun c => ?_, fun c => ?_, fun c hc => ?_⟩
    · have hle := h.out_le c
      have hadd := hout c
      simp only [List.count_append]
      omega
    · have hle := h.free_le c
      have hunmade := h.unmade l.made (Nat.le_refl _)
      simp only [List.count_append]
      rcases eq_or_ne l.made c with rfl | hne
      · rw [List.count_singleton_self]
        omega
      · rw [count_singleton_eq_zero hne]
        omega
    · have hlt : l.made < c := hc
      simp only [List.count_append, count_singleton_eq_zero (Nat.ne_of_lt hlt)]
      exact h.unmade c (Nat.le_of_lt hlt)
  | some i =>
    obtain ⟨b', hb', heq⟩ := Option.map_eq_some_iff.1 hget
    obtain ⟨rfl, rfl⟩ := Prod.mk.inj heq
    refine ⟨fun c => ?_, fun c => ?_, fun c hc => ?_⟩
    · have hle := h.out_le c
      have hadd := hout c
      simp only [List.count_append]
      omega
    · have hle := h.free_le c
      have herase := count_eraseIdx_add hb' c
      simp only [List.count_append]
      omega
    · have hunmade := h.unmade c hc
      have herase := count_eraseIdx_add hb' c
      simp only [List.count_append]
      omega

/-- Tokens in use are returned. -/
theorem Accounts.put {bs : List ℕ} (h : l.Accounts out)
    (hout : ∀ c, bs.count c + out' c ≤ out c) : (l.put bs).Accounts out' := by
  refine ⟨fun c => ?_, fun c => ?_, fun c hc => ?_⟩
  · have hle := h.out_le c
    have hadd := hout c
    simp only [Tokens.put, List.count_append]
    omega
  · have hle := h.free_le c
    simp only [Tokens.put, List.count_append]
    omega
  · have hunmade := h.unmade c hc
    have hle := h.out_le c
    have hadd := hout c
    simp only [Tokens.put, List.count_append]
    omega

/-- A token in the pool is forgotten. -/
theorem Accounts.forget (h : l.Accounts out) (i : ℕ) : (l.forget i).Accounts out := by
  have hle : ∀ c, (l.free.eraseIdx i).count c ≤ l.free.count c :=
    fun c => (List.eraseIdx_sublist l.free i).count_le c
  refine ⟨h.out_le, fun c => ?_, fun c hc => ?_⟩
  · exact Nat.le_trans (Nat.add_le_add_left (hle c) _) (h.free_le c)
  · have hunmade := h.unmade c hc
    exact ⟨hunmade.1, Nat.eq_zero_of_le_zero (hunmade.2 ▸ hle c)⟩

/-- **A token is in one hand or in the pool.** -/
theorem Accounts.out_add_free_le_one (h : l.Accounts out) (b : ℕ) :
    out b + l.free.count b ≤ 1 := by
  have hout := h.out_le b
  have hfree := h.free_le b
  omega

/-- **Takings and returns of a token alternate.** -/
theorem Accounts.returned_le_taken (h : l.Accounts out) (b : ℕ) :
    l.returned.count b ≤ l.taken.count b ∧ l.taken.count b ≤ l.returned.count b + 1 := by
  have hout := h.out_le b
  have hfree := h.free_le b
  omega

end Tokens

end StickyProxy

/-
  Elogind.Lib.LinkedList

  Doubly linked lists whose links are indices.  `Threaded nil links l` says that the
  links run through the indices of `l` in this order.
-/

import Mathlib.Data.List.Nodup

namespace Elogind.Lib

open List

/-- The links of a list: what is after an index, what is before it, and the two ends. -/
structure Links where
  next : Nat → Nat
  prev : Nat → Nat
  head : Nat
  tail : Nat

/-- The links run through `l`; `nil` stands for no index. -/
structure Threaded (nil : Nat) (links : Links) (l : List Nat) : Prop where
  head : links.head = l.head?.getD nil
  tail : links.tail = l.getLast?.getD nil
  next : ∀ a i b, l = a ++ i :: b → links.next i = b.head?.getD nil
  prev : ∀ a i b, l = a ++ i :: b → links.prev i = a.getLast?.getD nil

namespace Threaded

variable {nil : Nat} {links links' : Links} {l : List Nat} {i x : Nat}

/-- What is after an index is either nothing or an index of the list. -/
theorem next_cases (h : Threaded nil links l) (hi : i ∈ l) :
    links.next i = nil ∨ links.next i ∈ l := by
  obtain ⟨a, b, rfl⟩ := append_of_mem hi
  rw [h.next a i b rfl]
  cases b with
  | nil => exact .inl rfl
  | cons y b => exact .inr (by simp)

theorem prev_cases (h : Threaded nil links l) (hi : i ∈ l) :
    links.prev i = nil ∨ links.prev i ∈ l := by
  obtain ⟨a, b, rfl⟩ := append_of_mem hi
  rw [h.prev a i b rfl]
  rcases eq_nil_or_concat a with rfl | ⟨a, y, rfl⟩
  · exact .inl rfl
  · exact .inr (by simp)

theorem next_eq_iff (h : Threaded nil links l) (hnil : nil ∉ l) (hi : i ∈ l) (hx : x ∈ l) :
    links.next i = x ↔ links.prev x = i := by
  have hinil : i ≠ nil := fun heq => hnil (heq ▸ hi)
  have hxnil : x ≠ nil := fun heq => hnil (heq ▸ hx)
  constructor
  · intro hnext
    obtain ⟨a, b, rfl⟩ := append_of_mem hi
    rw [h.next a i b rfl] at hnext
    cases b with
    | nil => exact absurd hnext.symm hxnil
    | cons y b =>
      replace hnext : y = x := hnext
      subst hnext
      rw [h.prev (a ++ [i]) y b (by simp)]
      simp
  · intro hprev
    obtain ⟨a, b, rfl⟩ := append_of_mem hx
    rw [h.prev a x b rfl] at hprev
    rcases eq_nil_or_concat a with rfl | ⟨a, y, rfl⟩
    · exact absurd hprev.symm hinil
    · replace hprev : y = i := by simpa using hprev
      subst hprev
      rw [h.next a y (x :: b) (by simp)]
      rfl

theorem tail_eq_iff (h : Threaded nil links l) (hnil : nil ∉ l) (hx : x ∈ l) :
    links.tail = x ↔ links.next x = nil := by
  rw [h.tail]
  constructor
  · intro htail
    rcases eq_nil_or_concat l with rfl | ⟨a, y, rfl⟩
    · cases hx
    · replace htail : y = x := by simpa using htail
      subst htail
      rw [h.next a y [] (by simp)]
      rfl
  · intro hnext
    obtain ⟨a, b, rfl⟩ := append_of_mem hx
    rw [h.next a x b rfl] at hnext
    cases b with
    | nil => simp
    | cons y b =>
      replace hnext : y = nil := hnext
      exact absurd (by simp [hnext]) hnil

theorem tail_cases (h : Threaded nil links l) : links.tail = nil ∨ links.tail ∈ l := by
  rw [h.tail]
  rcases eq_nil_or_concat l with rfl | ⟨a, y, rfl⟩
  · exact .inl rfl
  · exact .inr (by simp)

theorem prev_ne_self (h : Threaded nil links l) (hnil : nil ∉ l) (hnodup : l.Nodup) (hi : i ∈ l) :
    links.prev i ≠ i := by
  intro heq
  obtain ⟨a, b, rfl⟩ := append_of_mem hi
  rw [h.prev a i b rfl] at heq
  rcases eq_nil_or_concat a with rfl | ⟨a, y, rfl⟩
  · exact hnil (by simp [show nil = i from heq])
  · replace heq : y = i := by simpa using heq
    subst heq
    simp [nodup_append] at hnodup

theorem next_ne_self (h : Threaded nil links l) (hnil : nil ∉ l) (hnodup : l.Nodup) (hi : i ∈ l) :
    links.next i ≠ i := by
  rw [Ne, h.next_eq_iff hnil hi hi]
  exact h.prev_ne_self hnil hnodup hi

/-- The links of indices that are not in the list do not matter. -/
theorem congr (h : Threaded nil links l) (hnext : ∀ i ∈ l, links'.next i = links.next i)
    (hprev : ∀ i ∈ l, links'.prev i = links.prev i) (hhead : links'.head = links.head)
    (htail : links'.tail = links.tail) : Threaded nil links' l where
  head := hhead.trans h.head
  tail := htail.trans h.tail
  next a i b hl := by
    rw [hnext i (by rw [hl]; simp)]
    exact h.next a i b hl
  prev a i b hl := by
    rw [hprev i (by rw [hl]; simp)]
    exact h.prev a i b hl

/-- The indices of a list get other names. -/
theorem map (h : Threaded nil links l) {f : Nat → Nat} (hnil : f nil = nil)
    (hnext : ∀ i ∈ l, links'.next (f i) = f (links.next i))
    (hprev : ∀ i ∈ l, links'.prev (f i) = f (links.prev i))
    (hhead : links'.head = f links.head) (htail : links'.tail = f links.tail) :
    Threaded nil links' (l.map f) := by
  have hgetD : ∀ o : Option Nat, f (o.getD nil) = (o.map f).getD nil := by
    intro o
    cases o with
    | none => exact hnil
    | some x => rfl
  refine ⟨?_, ?_, ?_, ?_⟩
  · rw [hhead, h.head, hgetD, head?_map]
  · rw [htail, h.tail, hgetD, getLast?_map]
  · intro a i b hl
    obtain ⟨a₀, c, rfl, rfl, hc⟩ := map_eq_append_iff.mp hl
    obtain ⟨i₀, b₀, rfl, rfl, rfl⟩ := map_eq_cons_iff.mp hc
    rw [hnext i₀ (by simp), h.next a₀ i₀ b₀ rfl, hgetD, head?_map]
  · intro a i b hl
    obtain ⟨a₀, c, rfl, rfl, hc⟩ := map_eq_append_iff.mp hl
    obtain ⟨i₀, b₀, rfl, rfl, rfl⟩ := map_eq_cons_iff.mp hc
    rw [hprev i₀ (by simp), h.prev a₀ i₀ b₀ rfl, hgetD, getLast?_map]

/-- An index is put at the end. -/
theorem append (h : Threaded nil links l) (hnil : nil ∉ l) {p : Nat} (hp : p ∉ l)
    (hnext : ∀ i ∈ l, links'.next i = if i = links.tail then p else links.next i)
    (hprev : ∀ i ∈ l, links'.prev i = links.prev i)
    (hpnext : links'.next p = nil) (hpprev : links'.prev p = links.tail)
    (hhead : links'.head = if links.head = nil then p else links.head) (htail : links'.tail = p) :
    Threaded nil links' (l ++ [p]) := by
  refine ⟨?_, ?_, ?_, ?_⟩
  · rw [hhead, h.head]
    cases l with
    | nil => exact if_pos rfl
    | cons y l =>
      have hy : y ≠ nil := fun heq => hnil (by simp [heq])
      exact if_neg hy
  · rw [htail]
    simp
  · intro a i b hl
    rcases eq_nil_or_concat b with rfl | ⟨b, y, rfl⟩
    · obtain ⟨rfl, hi⟩ := append_inj' hl rfl
      cases hi
      exact hpnext
    · have hl' : l ++ [p] = (a ++ i :: b) ++ [y] := by rw [hl]; simp
      obtain ⟨rfl, hy⟩ := append_inj' hl' rfl
      cases hy
      rw [hnext i (by simp), h.next a i b rfl, h.tail]
      cases b with
      | nil => exact if_pos (by simp)
      | cons z b =>
        rw [if_neg]
        · rfl
        · intro heq
          -- the last index has nothing after it
          have hlast : links.next i = nil := by
            rw [← h.tail_eq_iff hnil (by simp), h.tail]
            exact heq.symm
          rw [h.next a i (z :: b) rfl] at hlast
          replace hlast : z = nil := hlast
          exact hnil (by simp [hlast])
  · intro a i b hl
    rcases eq_nil_or_concat b with rfl | ⟨b, y, rfl⟩
    · obtain ⟨rfl, hi⟩ := append_inj' hl rfl
      cases hi
      rw [hpprev, h.tail]
    · have hl' : l ++ [p] = (a ++ i :: b) ++ [y] := by rw [hl]; simp
      obtain ⟨rfl, hy⟩ := append_inj' hl' rfl
      rw [hprev i (by simp), h.prev a i b rfl]

/-- Takes the index `src` to `dst`. -/
def renamed (src dst i : Nat) : Nat := if i = src then dst else i

theorem mem_map_renamed {src dst : Nat} (hsrc : src ∈ l) :
    i ∈ l.map (renamed src dst) ↔ i = dst ∨ i ∈ l ∧ i ≠ src := by
  rw [mem_map]
  constructor
  · rintro ⟨j, hj, rfl⟩
    unfold renamed
    split
    · exact .inl rfl
    · next hne => exact .inr ⟨hj, hne⟩
  · rintro (rfl | ⟨hi, hne⟩)
    · exact ⟨src, hsrc, if_pos rfl⟩
    · exact ⟨i, hi, if_neg hne⟩

theorem nodup_map_renamed {src dst : Nat} (h : l.Nodup) (hdst : dst ∉ l) :
    (l.map (renamed src dst)).Nodup := by
  apply Nodup.map_on _ h
  intro i hi j hj heq
  unfold renamed at heq
  split at heq <;> split at heq
  · next hi' hj' => exact hi'.trans hj'.symm
  · exact absurd (heq ▸ hj) hdst
  · exact absurd (heq ▸ hi) hdst
  · exact heq

/-- An index of the list gets another name. -/
theorem rename (h : Threaded nil links l) (hnil : nil ∉ l) {src dst : Nat} (hsrc : src ∈ l)
    (hnext : ∀ i ∈ l, links'.next (renamed src dst i) =
      if links.prev src = i then dst else links.next i)
    (hprev : ∀ i ∈ l, links'.prev (renamed src dst i) =
      if links.next src = i then dst else links.prev i)
    (hhead : links'.head = renamed src dst links.head)
    (htail : links'.tail = renamed src dst links.tail) :
    Threaded nil links' (l.map (renamed src dst)) := by
  have hsrcnil : nil ≠ src := fun heq => hnil (heq ▸ hsrc)
  refine h.map (if_neg hsrcnil) ?_ ?_ hhead htail
  · intro i hi
    rw [hnext i hi]
    unfold renamed
    simp only [h.next_eq_iff hnil hi hsrc]
  · intro i hi
    rw [hprev i hi]
    unfold renamed
    simp only [h.next_eq_iff hnil hsrc hi]

/-- An index is taken out. -/
theorem erase {a b : List Nat} (h : Threaded nil links (a ++ x :: b)) (hnil : nil ∉ a ++ x :: b)
    (hnodup : (a ++ x :: b).Nodup)
    (hnext : ∀ i ∈ a ++ b, links'.next i = if links.prev x = i then links.next x else links.next i)
    (hprev : ∀ i ∈ a ++ b, links'.prev i = if links.next x = i then links.prev x else links.prev i)
    (hhead : links'.head = if links.prev x = nil then links.next x else links.head)
    (htail : links'.tail = if links.next x = nil then links.prev x else links.tail) :
    Threaded nil links' (a ++ b) := by
  have hxnext := h.next a x b rfl
  have hxprev := h.prev a x b rfl
  have hdisj : ∀ i ∈ a, i ∉ b := by
    intro i hi hib
    exact (nodup_append.mp hnodup).2.2 i hi i (by simp [hib]) rfl
  -- an index of `a ++ b` is in one of the two
  have hsplit : ∀ c i d, a ++ b = c ++ i :: d →
      (∃ e, b = e ++ i :: d ∧ c = a ++ e) ∨ (∃ e, a = c ++ i :: e ∧ d = e ++ b) := by
    intro c i d heq
    obtain ⟨e, rfl, hb⟩ | ⟨e, rfl, hd⟩ := append_eq_append_iff.mp heq
    · exact .inl ⟨e, hb, rfl⟩
    · cases e with
      | nil => exact .inl ⟨[], hd.symm, by simp⟩
      | cons y e =>
        obtain ⟨rfl, rfl⟩ := cons.inj hd
        exact .inr ⟨e, rfl, rfl⟩
  refine ⟨?_, ?_, ?_, ?_⟩
  · rw [hhead, hxnext, hxprev, h.head]
    cases a with
    | nil => exact if_pos rfl
    | cons y a =>
      rw [if_neg]
      · rfl
      · intro heq
        rcases eq_nil_or_concat (y :: a) with hcons | ⟨a', z, hcons⟩
        · cases hcons
        · rw [hcons] at heq hnil
          replace heq : z = nil := by simpa using heq
          exact hnil (by simp [heq])
  · rw [htail, hxnext, hxprev, h.tail]
    rcases eq_nil_or_concat b with rfl | ⟨b', z, rfl⟩
    · rw [append_nil]
      exact if_pos rfl
    · rw [concat_eq_append] at hnil ⊢
      rw [if_neg]
      · rw [← append_assoc a, ← cons_append, ← append_assoc a, getLast?_concat,
          getLast?_concat]
      · intro heq
        cases b' with
        | nil =>
          replace heq : z = nil := heq
          exact hnil (by simp [heq])
        | cons y b' =>
          replace heq : y = nil := heq
          exact hnil (by simp [heq])
  · intro c i d heq
    obtain ⟨e, rfl, rfl⟩ | ⟨e, rfl, rfl⟩ := hsplit c i d heq
    · rw [hnext i (by simp), h.next (a ++ x :: e) i d (by simp), hxprev, if_neg]
      intro hi
      rcases eq_nil_or_concat a with rfl | ⟨a', z, rfl⟩
      · exact hnil (by simp [show nil = i from hi])
      · replace hi : z = i := by simpa using hi
        exact hdisj z (by simp) (by simp [hi])
    · rw [hnext i (by simp), h.next c i (e ++ x :: b) (by simp), hxprev, hxnext]
      cases e with
      | nil => exact if_pos (by simp)
      | cons y e =>
        rw [if_neg]
        · rfl
        · intro hi
          -- then the index would be there twice
          rcases eq_nil_or_concat (y :: e) with hcons | ⟨e', z, hcons⟩
          · cases hcons
          · rw [concat_eq_append] at hcons
            rw [hcons] at hi hnodup
            rw [← cons_append, ← append_assoc, getLast?_concat] at hi
            replace hi : z = i := hi
            subst hi
            simp [nodup_append] at hnodup
  · intro c i d heq
    obtain ⟨e, rfl, rfl⟩ | ⟨e, rfl, rfl⟩ := hsplit c i d heq
    · rw [hprev i (by simp), h.prev (a ++ x :: e) i d (by simp), hxprev, hxnext]
      cases e with
      | nil => exact (if_pos rfl).trans (by simp)
      | cons y e =>
        rw [if_neg]
        · simp
        · intro hi
          replace hi : y = i := hi
          subst hi
          simp [nodup_append] at hnodup
    · rw [hprev i (by simp), h.prev c i (e ++ x :: b) (by simp), hxnext, if_neg]
      intro hi
      cases b with
      | nil => exact hnil (by simp [show nil = i from hi])
      | cons z b =>
        replace hi : z = i := hi
        exact hdisj i (by simp) (by simp [hi])

end Threaded

end Elogind.Lib

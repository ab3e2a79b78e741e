import GreenThreads.Lib.Heap
import Mathlib.Logic.Equiv.Basic

/-!
# Binary heaps in a slice: the order

`Init` leaves every entry at or before its children (`init_ordered`), so the first entry is a
least one (`OrderedFrom.root`). A swap exchanges two positions in every comparison
(`atOrBefore_swap`), which is how the argument for `down` is carried through its loop.
-/

namespace SliceHeap

variable {α : Type*} {o : Ops α}

/-- `less` is a strict weak order and does not look at the position noted. -/
structure Ops.Lawful (o : Ops α) : Prop where
  asymm : ∀ a b, o.less a b = true → o.less b a = false
  /-- At or before is transitive. -/
  trans : ∀ a b c, o.less b a = false → o.less c b = false → o.less c a = false
  place_left : ∀ i a b, o.less (o.place i a) b = o.less a b
  place_right : ∀ i a b, o.less a (o.place i b) = o.less a b

theorem Ops.Lawful.irrefl (ho : o.Lawful) (a : α) : o.less a a = false := by
  cases h : o.less a a with
  | false => rfl
  | true => exact absurd (ho.asymm a a h) (by simp [h])

/-- The entry at `i` is at or before the one at `j`. -/
def AtOrBefore (o : Ops α) (l : List α) (i j : Nat) : Prop :=
  ∀ a b, l[i]? = some a → l[j]? = some b → o.less b a = false

theorem AtOrBefore.refl (ho : o.Lawful) (l : List α) (i : Nat) : AtOrBefore o l i i := by
  intro a b ha hb
  cases ha.symm.trans hb
  exact ho.irrefl a

theorem AtOrBefore.trans (ho : o.Lawful) {l : List α} {i j k : Nat} (hj : j < l.length)
    (hij : AtOrBefore o l i j) (hjk : AtOrBefore o l j k) : AtOrBefore o l i k := by
  intro a c ha hc
  have hb : l[j]? = some l[j] := by simp [hj]
  exact ho.trans a l[j] c (hij a _ ha hb) (hjk _ c hb hc)

theorem atOrBefore_of_lessAt {l : List α} {i j : Nat} (h : lessAt o l j i = some false) :
    AtOrBefore o l i j := by
  intro a b ha hb
  simpa [lessAt, ha, hb] using h

theorem atOrBefore_of_less (ho : o.Lawful) {l : List α} {i j : Nat}
    (h : lessAt o l i j = some true) : AtOrBefore o l i j := by
  intro a b ha hb
  have hless : o.less a b = true := by simpa [lessAt, ha, hb] using h
  exact ho.asymm a b hless

/-- After a swap every comparison is the one of the entries that stood there before. -/
theorem atOrBefore_swap (ho : o.Lawful) {l l' : List α} {i j : Nat} (hi : i < l.length)
    (hj : j < l.length) (h : swap o l i j = some l') (x y : Nat) :
    AtOrBefore o l' x y ↔ AtOrBefore o l (Equiv.swap i j x) (Equiv.swap i j y) := by
  rw [swap_eq hi hj] at h
  cases h
  -- an entry may have noted a new position, which no comparison sees
  have hget : ∀ k, ∃ g : α → α,
      (∀ a b, o.less (g a) b = o.less a b) ∧ (∀ a b, o.less a (g b) = o.less a b) ∧
      ((l.set i (o.place i l[j])).set j (o.place j l[i]))[k]? = (l[Equiv.swap i j k]?).map g := by
    intro k
    by_cases hjk : k = j
    · subst hjk
      refine ⟨o.place k, fun a b => ho.place_left k a b, fun a b => ho.place_right k a b, ?_⟩
      rw [List.getElem?_set_self (by simpa using hj), Equiv.swap_apply_right]
      simp [hi]
    · by_cases hik : k = i
      · subst hik
        refine ⟨o.place k, fun a b => ho.place_left k a b, fun a b => ho.place_right k a b, ?_⟩
        rw [List.getElem?_set_ne (Ne.symm hjk), List.getElem?_set_self hi, Equiv.swap_apply_left]
        simp [hj]
      · refine ⟨id, fun _ _ => rfl, fun _ _ => rfl, ?_⟩
        rw [List.getElem?_set_ne (Ne.symm hjk), List.getElem?_set_ne (Ne.symm hik),
          Equiv.swap_apply_of_ne_of_ne hik hjk, Option.map_id_fun, id]
  obtain ⟨gx, -, hxr, hx⟩ := hget x
  obtain ⟨gy, hyl, -, hy⟩ := hget y
  constructor
  · intro hord a b ha hb
    have hab := hord (gx a) (gy b) (by rw [hx, ha]; rfl) (by rw [hy, hb]; rfl)
    rwa [hyl, hxr] at hab
  · intro hord a b ha hb
    rw [hx] at ha
    rw [hy] at hb
    obtain ⟨a', ha', rfl⟩ := Option.map_eq_some_iff.mp ha
    obtain ⟨b', hb', rfl⟩ := Option.map_eq_some_iff.mp hb
    rw [hyl, hxr]
    exact hord a' b' ha' hb'

/-! ## Heap order -/

/-- `j` is a child of `i`. -/
def Child (i j : Nat) : Prop := j = 2 * i + 1 ∨ j = 2 * i + 2

theorem Child.lt {i j : Nat} (h : Child i j) : i < j := by
  unfold Child at h
  omega

theorem Child.parent_eq {i i' j : Nat} (h : Child i j) (h' : Child i' j) : i = i' := by
  unfold Child at h h'
  omega

/-- From position `k` on, every entry below `n` is at or after its parent. -/
def OrderedFrom (o : Ops α) (l : List α) (n k : Nat) : Prop :=
  ∀ i j, k ≤ i → Child i j → j < n → AtOrBefore o l i j

/-- The first entry of an ordered heap is at or before every other. -/
theorem OrderedFrom.root (ho : o.Lawful) {l : List α} (h : OrderedFrom o l l.length 0) {j : Nat}
    (hj : j < l.length) : AtOrBefore o l 0 j := by
  induction j using Nat.strongRecOn with
  | ind j ih =>
    by_cases hj0 : j = 0
    · subst hj0
      exact .refl ho l 0
    · have hp : Child ((j - 1) / 2) j := by
        unfold Child
        omega
      have hlt := hp.lt
      exact (ih _ hlt (by omega)).trans ho (by omega) (h _ j (Nat.zero_le _) hp hj)

/-- What `down` needs at position `i`: the order holds but for `i` and its children, and those
are at or after the parent of `i`. -/
structure DownOrder (o : Ops α) (l : List α) (n k i : Nat) : Prop where
  except : ∀ p j, k ≤ p → p ≠ i → Child p j → j < n → AtOrBefore o l p j
  grand : ∀ p j, k ≤ p → Child p i → Child i j → j < n → AtOrBefore o l p j

/-- Nothing is left to do once no child is before the entry. -/
theorem DownOrder.finish {l : List α} {n k i : Nat} (hd : DownOrder o l n k i)
    (hstop : ∀ j, Child i j → j < n → AtOrBefore o l i j) : OrderedFrom o l n k := by
  intro p j hkp hpj hjn
  by_cases hpi : p = i
  · subst hpi
    exact hstop j hpj hjn
  · exact hd.except p j hkp hpi hpj hjn

/-- The child chosen is at or before both. -/
theorem Chosen.least (ho : o.Lawful) {l : List α} {n i j : Nat} (h : Chosen o l n i j) {c : Nat}
    (hc : Child i c) (hcn : c < n) : AtOrBefore o l j c := by
  rcases h with ⟨rfl, hright⟩ | ⟨rfl, hright⟩
  · rcases hc with rfl | rfl
    · exact .refl ho l _
    · exact atOrBefore_of_lessAt (hright hcn)
  · rcases hc with rfl | rfl
    · exact atOrBefore_of_less ho hright
    · exact .refl ho l _

theorem Chosen.child {l : List α} {n i j : Nat} (h : Chosen o l n i j) : Child i j := by
  rcases h with ⟨hj, -⟩ | ⟨hj, -⟩
  · exact .inl hj
  · exact .inr hj

/-- A round that swaps moves the gap to the child chosen. -/
theorem DownOrder.move (ho : o.Lawful) {l l' : List α} {n k i j : Nat} (hn : n ≤ l.length)
    (hk : k ≤ i) (hd : DownOrder o l n k i) (hc : Chosen o l n i j) (hjn : j < n)
    (hless : lessAt o l j i = some true) (hs : swap o l i j = some l') :
    DownOrder o l' n k j := by
  have hij := hc.child.lt
  have hiff := atOrBefore_swap ho (by omega) (by omega) hs
  constructor
  · intro p c hkp hpj hpc hcn
    have hltc := hpc.lt
    rw [hiff]
    by_cases hpi : p = i
    · subst hpi
      rw [Equiv.swap_apply_left]
      by_cases hcj : c = j
      · subst hcj
        rw [Equiv.swap_apply_right]
        exact atOrBefore_of_less ho hless
      · rw [Equiv.swap_apply_of_ne_of_ne (by omega) hcj]
        exact hc.least ho hpc hcn
    · rw [Equiv.swap_apply_of_ne_of_ne hpi hpj]
      by_cases hci : c = i
      · subst hci
        rw [Equiv.swap_apply_left]
        exact hd.grand p j hkp hpc hc.child hjn
      · have hcj : c ≠ j := by
          rintro rfl
          exact hpi (hpc.parent_eq hc.child)
        rw [Equiv.swap_apply_of_ne_of_ne hci hcj]
        exact hd.except p c hkp hpi hpc hcn
  · intro p c hkp hpj hjc hcn
    have hltc := hjc.lt
    have hpi : p = i := hpj.parent_eq hc.child
    subst hpi
    rw [hiff, Equiv.swap_apply_left, Equiv.swap_apply_of_ne_of_ne (by omega) (by omega)]
    exact hd.except j c (by omega) (by omega) hjc hcn

/-- `down` closes the gap. -/
theorem down_ordered (ho : o.Lawful) {l : List α} {n k i : Nat} (hn : n ≤ l.length) (hk : k ≤ i)
    (hd : DownOrder o l n k i) {r : List α × Nat} (h : down o l i n = some r) :
    OrderedFrom o r.1 n k := by
  induction hm : n - i using Nat.strongRecOn generalizing l i with
  | ind m ih =>
    by_cases hi : 2 * i + 1 < n
    · obtain ⟨j, hc, hij, hjn, hround⟩ := down_round (o := o) hn hi
      rw [hround] at h
      split at h
      · cases h
      · next hless =>
        cases h
        refine hd.finish fun c hic hcn => ?_
        exact (atOrBefore_of_lessAt hless).trans ho (by omega) (hc.least ho hic hcn)
      · next hless =>
        split at h
        · cases h
        · next l' hs =>
          have hlen : l'.length = l.length :=
            SwapBelow.length_eq (o := o) (m := n) ⟨i, j, by omega, hjn, hs⟩
          exact ih (n - j) (by omega) (by omega) (by omega)
            (hd.move ho hn hk hc hjn hless hs) h rfl
    · have hleaf : n ≤ 2 * i + 1 := by omega
      rw [down] at h
      simp only [hleaf, if_true] at h
      cases h
      refine hd.finish fun c hic hcn => ?_
      unfold Child at hic
      omega

/-! ## `Init` -/

theorem initLoop_ordered (ho : o.Lawful) {l l' : List α} {n k : Nat} (hn : n ≤ l.length)
    (hord : OrderedFrom o l n k) (h : initLoop o l n k = some l') : OrderedFrom o l' n 0 := by
  induction k generalizing l with
  | zero =>
    cases h
    exact hord
  | succ k ih =>
    obtain ⟨⟨l₁, i⟩, hd, hs⟩ := down_swaps (o := o) hn k
    simp only [initLoop, hd] at h
    have hdown : DownOrder o l n k k := by
      constructor
      · intro p j hkp hpk hpj hjn
        exact hord p j (by omega) hpj hjn
      · intro p j hkp hpk
        have hlt := hpk.lt
        omega
    refine ih (l := l₁) (by rw [hs.length_eq]; exact hn) ?_ h
    exact down_ordered ho hn (Nat.le_refl k) hdown hd

/-- `Init` establishes the order, whatever the entries were. -/
theorem init_ordered (ho : o.Lawful) {l l' : List α} (h : init o l = some l') :
    OrderedFrom o l' l'.length 0 := by
  obtain ⟨l₁, hl₁, hs⟩ := init_swaps (o := o) l
  cases hl₁.symm.trans h
  rw [hs.length_eq]
  refine initLoop_ordered ho (Nat.le_refl _) (fun i j hi hij hj => ?_) h
  -- no position in the second half has a child
  unfold Child at hij
  omega

/-! ## A slice that is in order already -/

/-- `down` leaves a position alone that is at or before its children. -/
theorem down_of_atOrBefore {l : List α} {n i : Nat} (hn : n ≤ l.length)
    (h : ∀ j, Child i j → j < n → AtOrBefore o l i j) : down o l i n = some (l, i) := by
  by_cases hi : 2 * i + 1 < n
  · obtain ⟨j, hc, hij, hjn, hround⟩ := down_round (o := o) hn hi
    obtain ⟨b, hb⟩ := lessAt_isSome (o := o) (l := l) (i := j) (j := i) (by omega) (by omega)
    have hfalse : b = false := by
      have hless := h j hc.child hjn l[i] l[j] (by simp) (by simp)
      simpa [lessAt, hless, show j < l.length by omega, show i < l.length by omega] using hb.symm
    rw [hround, hb, hfalse]
  · rw [down]
    simp only [show n ≤ 2 * i + 1 by omega, if_true]

theorem initLoop_of_ordered {l : List α} {n : Nat} (hn : n ≤ l.length)
    (h : OrderedFrom o l n 0) (k : Nat) : initLoop o l n k = some l := by
  induction k with
  | zero => rfl
  | succ k ih =>
    have hdown := down_of_atOrBefore hn fun j hj hjn => h k j (Nat.zero_le k) hj hjn
    simp only [initLoop, hdown, ih]

/-- `Init` does not touch a slice that is in order. -/
theorem init_of_ordered {l : List α} (h : OrderedFrom o l l.length 0) : init o l = some l :=
  initLoop_of_ordered (Nat.le_refl _) h _

/-- A list in which no entry is before an earlier one is in order. -/
theorem orderedFrom_of_pairwise {l : List α} (h : l.Pairwise fun a b => o.less b a = false) :
    OrderedFrom o l l.length 0 := by
  intro i j _ hij hj a b ha hb
  obtain ⟨hi, rfl⟩ := List.getElem?_eq_some_iff.mp ha
  obtain ⟨hj', rfl⟩ := List.getElem?_eq_some_iff.mp hb
  exact List.pairwise_iff_getElem.mp h i j hi hj' hij.lt

/-- An entry that is not before any other stays at the end it is pushed to. -/
theorem push_of_last (ho : o.Lawful) {l : List α} {x : α} (h : ∀ a ∈ l, o.less x a = false) :
    push o l x = some (l ++ [o.place l.length x]) := by
  unfold push
  rw [up]
  by_cases hroot : (l.length - 1) / 2 = l.length
  · simp only [hroot, if_true]
  · have hlt : (l.length - 1) / 2 < l.length := by omega
    have hless := h l[(l.length - 1) / 2] (List.getElem_mem hlt)
    simp [hroot, lessAt, List.getElem?_append_left hlt, hlt, ho.place_left, hless]

/-- `Pop` puts the last entry first, and there it stays if none of the others is before it. -/
theorem pop_of_last_least (ho : o.Lawful) {x b : α} {l : List α}
    (h : ∀ a ∈ l, o.less a b = false) :
    pop o (x :: (l ++ [b])) = some (o.place 0 b :: l, o.place (l.length + 1) x) := by
  have hswap : swap o (x :: (l ++ [b])) 0 (l.length + 1)
      = some (o.place 0 b :: (l ++ [o.place (l.length + 1) x])) := by
    simp [swap]
  have hdown : down o (o.place 0 b :: (l ++ [o.place (l.length + 1) x])) 0 (l.length + 1)
      = some (o.place 0 b :: (l ++ [o.place (l.length + 1) x]), 0) := by
    refine down_of_atOrBefore (by simp) fun j hj hjn a c ha hc => ?_
    cases ha
    obtain ⟨k, rfl⟩ : ∃ k, j = k + 1 := ⟨j - 1, by have := hj.lt; omega⟩
    rw [List.getElem?_cons_succ, List.getElem?_append_left (by omega)] at hc
    rw [ho.place_right]
    exact h c (List.mem_of_getElem? hc)
  have hlen : (x :: (l ++ [b])).length - 1 = l.length + 1 := by simp
  simp only [pop, hlen, hswap, hdown]
  rw [popLast_eq (n := l.length + 1) (x := o.place (l.length + 1) x) (by simp) (by simp),
    ← List.cons_append, List.dropLast_concat]

end SliceHeap

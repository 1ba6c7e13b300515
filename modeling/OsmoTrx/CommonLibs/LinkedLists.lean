import OsmoTrx.Lib.Linked
import OsmoTrx.Lib.Run

/-!
# The pointer FIFO

`PointerFIFO` keeps pointers in list nodes.  A node that is taken out goes to a list of free nodes,
from which the next one is put in.

* `Holds` — the FIFO holds a list of pointers: two lists of nodes without a node in common, and
  the number of pointers modulo 2³².
* `Nodes.put`, `Nodes.pushFront`, `Nodes.get` — what each operation does to the nodes.
* `Holds.put`, `Holds.get`, `Holds.get_nil` — and to the pointers.
* `Holds.unique` — what a FIFO holds is determined by its nodes.
* `deque_run` — **a list with two ends** is what a FIFO is in every run, and no node is lost.
-/

namespace OsmoTrx
namespace CommonLibs

/-- `ListNode`; a null pointer is `none`. -/
structure ListNode (α : Type) where
  mNext : Option ℕ
  mData : Option α

/-- `PointerFIFO`, with the nodes in memory by their addresses.  The addresses from `fresh` on have
not been used. -/
structure PointerFIFO (α : Type) where
  nodes : ℕ → ListNode α
  fresh : ℕ
  mHead : Option ℕ
  mTail : Option ℕ
  mFreeList : Option ℕ
  mSize : ℕ

namespace PointerFIFO

variable {α : Type}

/-- The constructor. -/
def new : PointerFIFO α := ⟨fun _ => ⟨none, none⟩, 0, none, none, none, 0⟩

/-- `allocate`. -/
def allocate (q : PointerFIFO α) : ℕ × PointerFIFO α :=
  match q.mFreeList with
  | none => (q.fresh, { q with fresh := q.fresh + 1 })
  | some retVal => (retVal, { q with mFreeList := (q.nodes retVal).mNext })

/-- `node->next(wNext)`. -/
def setNext (q : PointerFIFO α) (node : ℕ) (wNext : Option ℕ) : PointerFIFO α :=
  { q with nodes := Function.update q.nodes node { q.nodes node with mNext := wNext } }

/-- `node->data(wData)`. -/
def setData (q : PointerFIFO α) (node : ℕ) (wData : Option α) : PointerFIFO α :=
  { q with nodes := Function.update q.nodes node { q.nodes node with mData := wData } }

/-- `release`. -/
def release (q : PointerFIFO α) (wNode : ℕ) : PointerFIFO α :=
  { q.setNext wNode q.mFreeList with mFreeList := some wNode }

/-- `put` after it has allocated `node`. -/
def putNode (q : PointerFIFO α) (node : ℕ) (val : Option α) : PointerFIFO α :=
  let q := (q.setData node val).setNext node none
  let q := match q.mTail with
    | some tail => q.setNext tail (some node)
    | none => q
  { q with
    mTail := some node
    mHead := if q.mHead = none then some node else q.mHead
    mSize := (q.mSize + 1) % 2 ^ 32 }

/-- `put`. -/
def put (q : PointerFIFO α) (val : Option α) : PointerFIFO α :=
  q.allocate.2.putNode q.allocate.1 val

/-- `get`. -/
def get (q : PointerFIFO α) : Option α × PointerFIFO α :=
  match q.mHead with
  | none => (none, q)
  | some head =>
    let next := (q.nodes head).mNext
    let retVal := (q.nodes head).mData
    let q := q.release head
    (retVal,
      { q with
        mHead := next
        mTail := if next = none then none else q.mTail
        mSize := (q.mSize + (2 ^ 32 - 1)) % 2 ^ 32 })

/-- `push_front` after it has allocated `node`. -/
def pushNode (q : PointerFIFO α) (node : ℕ) (val : Option α) : PointerFIFO α :=
  let q := (q.setData node val).setNext node q.mHead
  { q with
    mHead := some node
    mTail := if q.mTail = none then some node else q.mTail
    mSize := (q.mSize + 1) % 2 ^ 32 }

/-- `push_front`. -/
def pushFront (q : PointerFIFO α) (val : Option α) : PointerFIFO α :=
  q.allocate.2.pushNode q.allocate.1 val

/-- `front`. -/
def front (q : PointerFIFO α) : Option α :=
  match q.mHead with
  | none => none
  | some head => (q.nodes head).mData

/-! ## Links and data -/

/-- The links of the nodes. -/
def next (q : PointerFIFO α) (a : ℕ) : Option ℕ := (q.nodes a).mNext

/-- The pointers in the nodes. -/
def data (q : PointerFIFO α) (a : ℕ) : Option α := (q.nodes a).mData

variable {q : PointerFIFO α} {a : ℕ}

@[simp] theorem next_setNext (p : Option ℕ) :
    (q.setNext a p).next = Function.update q.next a p := by
  funext b
  by_cases hb : b = a
  · subst hb
    simp [next, setNext]
  · simp [next, setNext, hb]

@[simp] theorem data_setNext (p : Option ℕ) : (q.setNext a p).data = q.data := by
  funext b
  by_cases hb : b = a
  · subst hb
    simp [data, setNext]
  · simp [data, setNext, hb]

@[simp] theorem next_setData (v : Option α) : (q.setData a v).next = q.next := by
  funext b
  by_cases hb : b = a
  · subst hb
    simp [next, setData]
  · simp [next, setData, hb]

@[simp] theorem data_setData (v : Option α) :
    (q.setData a v).data = Function.update q.data a v := by
  funext b
  by_cases hb : b = a
  · subst hb
    simp [data, setData]
  · simp [data, setData, hb]

/-! ## What a FIFO holds -/

/-- The nodes in use and the free nodes. -/
structure Nodes (q : PointerFIFO α) (used free : List ℕ) : Prop where
  head : Linked.Segment q.next q.mHead used none
  freeList : Linked.Segment q.next q.mFreeList free none
  nodup : (used ++ free).Nodup
  lt : ∀ a ∈ used ++ free, a < q.fresh
  tail : q.mTail = used.getLast?

/-- Every node that has been allocated is in use or free. -/
def Owned (q : PointerFIFO α) (used free : List ℕ) : Prop := ∀ a < q.fresh, a ∈ used ++ free

/-- The FIFO holds some pointers, the next one out first. -/
def Holds (q : PointerFIFO α) (xs : List (Option α)) : Prop :=
  ∃ used free, q.Nodes used free ∧ used.map q.data = xs ∧ q.mSize = xs.length % 2 ^ 32

theorem holds_new : (new : PointerFIFO α).Holds [] :=
  ⟨[], [], ⟨rfl, rfl, List.nodup_nil, fun _ ha => absurd ha List.not_mem_nil, rfl⟩, rfl, rfl⟩

/-- What a FIFO holds is determined by its nodes. -/
theorem Holds.unique {xs ys : List (Option α)} (hx : q.Holds xs) (hy : q.Holds ys) : xs = ys := by
  obtain ⟨used, _, hn, rfl, -⟩ := hx
  obtain ⟨used', _, hn', rfl, -⟩ := hy
  rw [hn.head.unique hn'.head]

theorem Holds.mSize_eq {xs : List (Option α)} (h : q.Holds xs) :
    q.mSize = xs.length % 2 ^ 32 := by
  obtain ⟨-, -, -, -, hsize⟩ := h
  exact hsize

theorem allocate_of_none (h : q.mFreeList = none) :
    q.allocate = (q.fresh, { q with fresh := q.fresh + 1 }) := by
  rw [allocate, h]

theorem allocate_of_some (h : q.mFreeList = some a) :
    q.allocate = (a, { q with mFreeList := q.next a }) := by
  rw [allocate, h]
  rfl

/-- A new node is one that is not in use, and the others stay what they are. -/
theorem Nodes.allocate {used free : List ℕ} (h : q.Nodes used free) :
    ∃ free', q.allocate.2.Nodes used free' ∧ q.allocate.1 ∉ used ++ free' ∧
      q.allocate.1 < q.allocate.2.fresh ∧ q.allocate.2.data = q.data ∧
      q.allocate.2.mSize = q.mSize ∧
      (q.Owned used free → ∀ a < q.allocate.2.fresh, a ∈ q.allocate.1 :: (used ++ free')) := by
  cases hfree : q.mFreeList with
  | none =>
    have hnil : free = [] := by
      cases free with
      | nil => rfl
      | cons a as => exact absurd (hfree ▸ h.freeList.1) (by simp)
    rw [allocate_of_none hfree]
    refine ⟨free, ⟨h.head, ?_, h.nodup, fun a ha => Nat.lt_succ_of_lt (h.lt a ha), h.tail⟩,
      fun hmem => Nat.lt_irrefl _ (h.lt _ hmem), Nat.lt_succ_self _, rfl, rfl, fun hall a ha => ?_⟩
    · rw [hnil]
      exact hfree
    · rcases Nat.lt_succ_iff_lt_or_eq.mp ha with hlt | rfl
      · exact List.mem_cons_of_mem _ (hall a hlt)
      · exact List.mem_cons_self
  | some a =>
    cases free with
    | nil => exact absurd (hfree ▸ h.freeList : some a = none) (by simp)
    | cons b bs =>
      obtain ⟨hab, hbs⟩ := h.freeList
      obtain rfl : a = b := Option.some.inj (hfree.symm.trans hab)
      have hnodup : (a :: (used ++ bs)).Nodup := List.perm_middle.nodup_iff.mp h.nodup
      have hmem : ∀ c ∈ used ++ bs, c ∈ used ++ a :: bs := fun c hc =>
        List.perm_middle.mem_iff.mpr (List.mem_cons_of_mem _ hc)
      rw [allocate_of_some hfree]
      exact ⟨bs, ⟨h.head, hbs, (List.nodup_cons.mp hnodup).2, fun c hc => h.lt c (hmem c hc),
        h.tail⟩, (List.nodup_cons.mp hnodup).1, h.lt a (by simp), rfl, rfl,
        fun hall c hc => List.perm_middle.mem_iff.mp (hall c hc)⟩

theorem putNode_of_none (h : q.mTail = none) (hhead : q.mHead = none) (val : Option α) :
    q.putNode a val =
      { (q.setData a val).setNext a none with
        mHead := some a, mTail := some a, mSize := (q.mSize + 1) % 2 ^ 32 } := by
  have htail : ((q.setData a val).setNext a none).mTail = none := h
  have hhead' : ((q.setData a val).setNext a none).mHead = none := hhead
  simp only [putNode, htail, hhead', if_true]
  rfl

theorem putNode_of_some {t : ℕ} (h : q.mTail = some t) (hhead : q.mHead ≠ none) (val : Option α) :
    q.putNode a val =
      { ((q.setData a val).setNext a none).setNext t (some a) with
        mTail := some a, mSize := (q.mSize + 1) % 2 ^ 32 } := by
  have htail : ((q.setData a val).setNext a none).mTail = some t := h
  have hhead' : (((q.setData a val).setNext a none).setNext t (some a)).mHead ≠ none := hhead
  simp only [putNode, htail, hhead', if_false]
  rfl

/-- A node is linked behind the last one. -/
theorem Nodes.putNode {used free : List ℕ} (h : q.Nodes used free) (ha : a ∉ used ++ free)
    (hlt : a < q.fresh) (val : Option α) :
    (q.putNode a val).Nodes (used ++ [a]) free ∧
      (q.putNode a val).data = Function.update q.data a val ∧
      (q.putNode a val).mSize = (q.mSize + 1) % 2 ^ 32 := by
  have hfree : a ∉ free := fun hmem => ha (List.mem_append_right _ hmem)
  have hnodup : (used ++ [a] ++ free).Nodup := by
    rw [List.append_assoc]
    exact List.perm_middle.nodup_iff.mpr (List.nodup_cons.mpr ⟨ha, h.nodup⟩)
  have hbound : ∀ b ∈ used ++ [a] ++ free, b < q.fresh := by
    intro b hb
    rw [List.append_assoc] at hb
    rcases List.mem_cons.mp (List.perm_middle.mem_iff.mp hb) with rfl | hb
    · exact hlt
    · exact h.lt b hb
  rcases List.eq_nil_or_concat used with rfl | ⟨before, t, rfl⟩
  · rw [putNode_of_none h.tail h.head]
    refine ⟨⟨⟨rfl, ?_⟩, ?_, hnodup, hbound, rfl⟩, ?_, rfl⟩
    · change ((q.setData a val).setNext a none).next a = none
      rw [next_setNext, Function.update_self]
    · change Linked.Segment ((q.setData a val).setNext a none).next q.mFreeList free none
      rw [next_setNext, next_setData]
      exact h.freeList.update hfree none
    · change ((q.setData a val).setNext a none).data = _
      rw [data_setNext, data_setData]
  · rw [List.concat_eq_append] at ha h hnodup hbound ⊢
    have ht : t ∉ free := fun hmem =>
      (List.nodup_append.mp h.nodup).2.2 t (by simp) t hmem rfl
    have hhead : q.mHead ≠ none := by
      intro hnil
      have hseg := h.head
      rw [hnil] at hseg
      cases before with
      | nil => exact absurd hseg.1 (by simp)
      | cons b bs => exact absurd hseg.1 (by simp)
    have htail : q.mTail = some t := by
      rw [h.tail]
      simp
    rw [putNode_of_some htail hhead]
    refine ⟨⟨?_, ?_, hnodup, hbound, by simp⟩, ?_, rfl⟩
    · change Linked.Segment (((q.setData a val).setNext a none).setNext t (some a)).next q.mHead _ _
      rw [next_setNext, next_setNext, next_setData]
      exact h.head.extend (List.nodup_append.mp h.nodup).1
        fun hmem => ha (List.mem_append_left _ hmem)
    · change Linked.Segment (((q.setData a val).setNext a none).setNext t (some a)).next
        q.mFreeList free none
      rw [next_setNext, next_setNext, next_setData]
      exact (h.freeList.update hfree none).update ht _
    · change (((q.setData a val).setNext a none).setNext t (some a)).data = _
      rw [data_setNext, data_setNext, data_setData]

theorem putNode_fresh (val : Option α) : (q.putNode a val).fresh = q.fresh := by
  have htail : ((q.setData a val).setNext a none).mTail = q.mTail := rfl
  simp only [putNode, htail]
  cases q.mTail with
  | none => rfl
  | some t => rfl

/-- `put` takes a node that was not in use. -/
theorem Nodes.put {used free : List ℕ} (h : q.Nodes used free) (val : Option α) :
    ∃ node free', (q.put val).Nodes (used ++ [node]) free' ∧
      (q.Owned used free → (q.put val).Owned (used ++ [node]) free') ∧
      (used ++ [node]).map (q.put val).data = used.map q.data ++ [val] ∧
      (q.put val).mSize = (q.mSize + 1) % 2 ^ 32 := by
  obtain ⟨free', hq, hnode, hlt, hdata, hsize, hall⟩ := h.allocate
  obtain ⟨hnodes, hdata', hsize'⟩ := hq.putNode hnode hlt val
  have hused : q.allocate.1 ∉ used := fun hmem => hnode (List.mem_append_left _ hmem)
  refine ⟨q.allocate.1, free', hnodes, fun howned a ha => ?_, ?_, ?_⟩
  · rw [List.append_assoc, List.singleton_append]
    exact List.perm_middle.mem_iff.mpr (hall howned a ((putNode_fresh val).symm ▸ ha))
  · change (used ++ [q.allocate.1]).map (q.allocate.2.putNode q.allocate.1 val).data = _
    rw [hdata', List.map_append, List.map_congr_left fun a ha =>
      Function.update_of_ne (ne_of_mem_of_not_mem ha hused) val q.allocate.2.data, hdata]
    simp
  · change (q.allocate.2.putNode q.allocate.1 val).mSize = _
    rw [hsize', hsize]

/-- **`put`** puts a pointer at the end. -/
theorem Holds.put {xs : List (Option α)} (h : q.Holds xs) (val : Option α) :
    (q.put val).Holds (xs ++ [val]) := by
  obtain ⟨used, free, hn, rfl, hsize⟩ := h
  obtain ⟨node, free', hnodes, -, hdata, hsize'⟩ := hn.put val
  refine ⟨used ++ [node], free', hnodes, hdata, ?_⟩
  rw [hsize', hsize, List.length_append, List.length_singleton, Nat.mod_add_mod]

/-- A node is linked in front of the first one. -/
theorem Nodes.pushNode {used free : List ℕ} (h : q.Nodes used free) (ha : a ∉ used ++ free)
    (hlt : a < q.fresh) (val : Option α) :
    (q.pushNode a val).Nodes (a :: used) free ∧
      (q.pushNode a val).data = Function.update q.data a val := by
  have hused : a ∉ used := fun hmem => ha (List.mem_append_left _ hmem)
  have hfree : a ∉ free := fun hmem => ha (List.mem_append_right _ hmem)
  refine ⟨⟨⟨rfl, ?_⟩, ?_, List.nodup_cons.mpr ⟨ha, h.nodup⟩, fun b hb => ?_, ?_⟩, ?_⟩
  · change Linked.Segment ((q.setData a val).setNext a q.mHead).next
      (((q.setData a val).setNext a q.mHead).next a) used none
    rw [next_setNext, next_setData, Function.update_self]
    exact h.head.update hused _
  · change Linked.Segment ((q.setData a val).setNext a q.mHead).next q.mFreeList free none
    rw [next_setNext, next_setData]
    exact h.freeList.update hfree _
  · rcases List.mem_cons.mp hb with rfl | hb
    · exact hlt
    · exact h.lt b hb
  · change (if q.mTail = none then some a else q.mTail) = (a :: used).getLast?
    rw [h.tail, List.getLast?_cons]
    cases used.getLast? with
    | none => rfl
    | some t => rfl
  · change ((q.setData a val).setNext a q.mHead).data = _
    rw [data_setNext, data_setData]

/-- `push_front` takes a node that was not in use. -/
theorem Nodes.pushFront {used free : List ℕ} (h : q.Nodes used free) (val : Option α) :
    ∃ node free', (q.pushFront val).Nodes (node :: used) free' ∧
      (q.Owned used free → (q.pushFront val).Owned (node :: used) free') ∧
      (node :: used).map (q.pushFront val).data = val :: used.map q.data ∧
      (q.pushFront val).mSize = (q.mSize + 1) % 2 ^ 32 := by
  obtain ⟨free', hq, hnode, hlt, hdata, hsize, hall⟩ := h.allocate
  obtain ⟨hnodes, hdata'⟩ := hq.pushNode hnode hlt val
  have hused : q.allocate.1 ∉ used := fun hmem => hnode (List.mem_append_left _ hmem)
  refine ⟨q.allocate.1, free', hnodes, fun howned a ha => hall howned a ha, ?_, ?_⟩
  · change (q.allocate.1 :: used).map (q.allocate.2.pushNode q.allocate.1 val).data = _
    rw [hdata', List.map_cons, Function.update_self, List.map_congr_left fun a ha =>
      Function.update_of_ne (ne_of_mem_of_not_mem ha hused) val q.allocate.2.data, hdata]
  · change (q.allocate.2.mSize + 1) % 2 ^ 32 = _
    rw [hsize]

/-- `get` on an empty FIFO returns a null pointer and changes nothing. -/
theorem Holds.get_nil (h : q.Holds []) : q.get = (none, q) := by
  obtain ⟨used, free, hn, hused, -⟩ := h
  have hhead : q.mHead = none := by
    rw [List.map_eq_nil_iff.mp hused] at hn
    exact hn.head
  rw [PointerFIFO.get, hhead]

theorem get_of_some (h : q.mHead = some a) :
    q.get = (q.data a,
      { q.release a with
        mHead := q.next a
        mTail := if q.next a = none then none else q.mTail
        mSize := (q.mSize + (2 ^ 32 - 1)) % 2 ^ 32 }) := by
  rw [get, h]
  rfl

/-- One more and one less, modulo 2³². -/
theorem size_pred (k : ℕ) : ((k + 1) % 2 ^ 32 + (2 ^ 32 - 1)) % 2 ^ 32 = k % 2 ^ 32 := by
  omega

/-- `get` moves the first node to the free ones. -/
theorem Nodes.get {used free : List ℕ} (h : q.Nodes (a :: used) free) :
    q.get.1 = q.data a ∧ q.get.2.Nodes used (a :: free) ∧
      (q.Owned (a :: used) free → q.get.2.Owned used (a :: free)) ∧ q.get.2.data = q.data ∧
      q.get.2.mSize = (q.mSize + (2 ^ 32 - 1)) % 2 ^ 32 := by
  obtain ⟨hhead, hseg⟩ := h.head
  have hnodup : (used ++ a :: free).Nodup := List.perm_middle.nodup_iff.mpr h.nodup
  have ha : a ∉ used ++ free := (List.nodup_cons.mp h.nodup).1
  rw [get_of_some hhead]
  refine ⟨rfl, ⟨?_, ⟨rfl, ?_⟩, hnodup, ?_, ?_⟩, ?_, ?_, rfl⟩
  · change Linked.Segment (q.setNext a q.mFreeList).next (q.next a) used none
    rw [next_setNext]
    exact hseg.update (fun hmem => ha (List.mem_append_left _ hmem)) _
  · change Linked.Segment (q.setNext a q.mFreeList).next ((q.setNext a q.mFreeList).next a)
      free none
    rw [next_setNext, Function.update_self]
    exact h.freeList.update (fun hmem => ha (List.mem_append_right _ hmem)) _
  · exact fun b hb => h.lt b (List.perm_middle.mem_iff.mp hb)
  · cases used with
    | nil => exact if_pos hseg
    | cons b bs =>
      have hnext : q.next a ≠ none := by
        rw [hseg.1]
        exact Option.some_ne_none b
      exact (if_neg hnext).trans h.tail
  · exact fun howned b hb => List.perm_middle.mem_iff.mpr (howned b hb)
  · change (q.setNext a q.mFreeList).data = _
    rw [data_setNext]

/-- **`get`** takes the first pointer. -/
theorem Holds.get {x : Option α} {xs : List (Option α)} (h : q.Holds (x :: xs)) :
    q.get.1 = x ∧ q.get.2.Holds xs := by
  obtain ⟨used, free, hn, hused, hsize⟩ := h
  obtain ⟨a, as, rfl, rfl, rfl⟩ := List.map_eq_cons_iff.mp hused
  obtain ⟨hval, hnodes, -, hdata, hsize'⟩ := hn.get
  refine ⟨hval, as, a :: free, hnodes, by rw [hdata], ?_⟩
  rw [hsize', hsize, List.length_cons, List.length_map, size_pred]

/-- A FIFO without a first node holds nothing. -/
theorem Holds.eq_nil {xs : List (Option α)} (h : q.Holds xs) (hhead : q.mHead = none) :
    xs = [] := by
  obtain ⟨used, free, hn, rfl, -⟩ := h
  have hnil : used = [] := by
    cases used with
    | nil => rfl
    | cons a as => exact absurd (hhead.symm.trans hn.head.1) (by simp)
  rw [hnil, List.map_nil]

/-! ## Runs -/

/-- The operations. -/
inductive Op (α : Type)
  | put (val : Option α)
  | pushFront (val : Option α)
  | get
  | front

/-- The FIFO after an operation. -/
def step (q : PointerFIFO α) : Op α → PointerFIFO α
  | .put val => q.put val
  | .pushFront val => q.pushFront val
  | .get => q.get.2
  | .front => q

/-- The pointer that an operation returns. -/
def out (q : PointerFIFO α) : Op α → Option (Option α)
  | .put _ => none
  | .pushFront _ => none
  | .get => some q.get.1
  | .front => some q.front

namespace Deque

/-- A list with two ends at which elements are put in; they are taken from the front. -/
def step (xs : List (Option α)) : Op α → List (Option α)
  | .put val => xs ++ [val]
  | .pushFront val => val :: xs
  | .get => xs.tail
  | .front => xs

/-- The first element, or a null pointer. -/
def first (xs : List (Option α)) : Option α := xs.head?.join

def out (xs : List (Option α)) : Op α → Option (Option α)
  | .put _ => none
  | .pushFront _ => none
  | .get => some (first xs)
  | .front => some (first xs)

end Deque

/-- The FIFO holds some pointers, and no node is lost. -/
def Refines (q : PointerFIFO α) (xs : List (Option α)) : Prop :=
  ∃ used free, q.Nodes used free ∧ q.Owned used free ∧ used.map q.data = xs ∧
    q.mSize = xs.length % 2 ^ 32

theorem refines_new : (new : PointerFIFO α).Refines [] := by
  obtain ⟨used, free, hn, hused, hsize⟩ := holds_new (α := α)
  exact ⟨used, free, hn, fun a ha => absurd ha (Nat.not_lt_zero a), hused, hsize⟩

theorem Nodes.front_eq {used free : List ℕ} (h : q.Nodes used free) :
    q.front = Deque.first (used.map q.data) := by
  cases used with
  | nil =>
    rw [front, show q.mHead = none from h.head]
    rfl
  | cons a used =>
    rw [front, h.head.1]
    rfl

/-- **One operation.** -/
theorem Refines.step {xs : List (Option α)} (h : q.Refines xs) (op : Op α) :
    q.out op = Deque.out xs op ∧ (q.step op).Refines (Deque.step xs op) := by
  obtain ⟨used, free, hn, howned, rfl, hsize⟩ := h
  rw [List.length_map] at hsize
  cases op with
  | put val =>
    obtain ⟨node, free', hn', howned', hdata, hsize'⟩ := hn.put val
    refine ⟨rfl, used ++ [node], free', hn', howned' howned, hdata, ?_⟩
    change (q.put val).mSize = (used.map q.data ++ [val]).length % 2 ^ 32
    rw [hsize', hsize, List.length_append, List.length_map, List.length_singleton, Nat.mod_add_mod]
  | pushFront val =>
    obtain ⟨node, free', hn', howned', hdata, hsize'⟩ := hn.pushFront val
    refine ⟨rfl, node :: used, free', hn', howned' howned, hdata, ?_⟩
    change (q.pushFront val).mSize = (val :: used.map q.data).length % 2 ^ 32
    rw [hsize', hsize, List.length_cons, List.length_map, Nat.mod_add_mod]
  | get =>
    cases used with
    | nil =>
      have hget : q.get = (none, q) := by rw [PointerFIFO.get, show q.mHead = none from hn.head]
      refine ⟨?_, [], free, ?_⟩
      · rw [out, hget]
        rfl
      · rw [PointerFIFO.step, hget]
        exact ⟨hn, howned, rfl, hsize⟩
    | cons a used =>
      obtain ⟨hval, hn', howned', hdata, hsize'⟩ := hn.get
      refine ⟨?_, used, a :: free, hn', howned' howned, ?_, ?_⟩
      · rw [out, hval]
        rfl
      · exact congrArg (used.map ·) hdata
      · change q.get.2.mSize = (used.map q.data).length % 2 ^ 32
        rw [hsize', hsize, List.length_cons, size_pred, List.length_map]
  | front =>
    refine ⟨?_, used, free, hn, howned, rfl, ?_⟩
    · rw [out, hn.front_eq]
      rfl
    · exact hsize.trans (by rw [Deque.step, List.length_map])

/-- **A FIFO refines a list with two ends**, in every run: it returns what the list does; the
chains from the head and from the free list end, share no node and have all nodes; the tail is the
last node in use; and the size is their number modulo 2³². -/
theorem deque_run (ops : List (Op α)) :
    Run.outputs step out new ops = Run.outputs Deque.step Deque.out [] ops ∧
      ∃ q : PointerFIFO α, q = Run.exec step new ops ∧ ∃ used free : List ℕ,
        Linked.Segment q.next q.mHead used none ∧ Linked.Segment q.next q.mFreeList free none ∧
        (used ++ free).Nodup ∧ (∀ a, a < q.fresh ↔ a ∈ used ++ free) ∧
        q.mTail = used.getLast? ∧ (q.mTail = none ↔ q.mHead = none) ∧
        used.map q.data = Run.exec Deque.step [] ops ∧ q.mSize = used.length % 2 ^ 32 := by
  obtain ⟨houts, used, free, hn, howned, hused, hsize⟩ := Run.simulation_exec Refines
    (fun _ _ op h => h.step op) (refines_new (α := α)) ops
  refine ⟨houts, _, rfl, used, free, hn.head, hn.freeList, hn.nodup,
    fun a => ⟨howned a, hn.lt a⟩, hn.tail, ?_, hused, ?_⟩
  · rw [hn.tail, List.getLast?_eq_none_iff]
    cases used with
    | nil => exact iff_of_true rfl hn.head
    | cons a used => exact iff_of_false (List.cons_ne_nil a used) (by rw [hn.head.1]; simp)
  · rw [hsize, ← hused, List.length_map]

/-- `n` times `put`. -/
theorem Deque.exec_put (val : Option α) (xs : List (Option α)) (n : ℕ) :
    Run.exec Deque.step xs (List.replicate n (.put val)) = xs ++ List.replicate n val := by
  induction n generalizing xs with
  | zero => simp
  | succ n ih =>
    rw [List.replicate_succ, Run.exec_cons, ih, Deque.step, List.append_assoc,
      List.singleton_append, ← List.replicate_succ]

theorem mSize_put (val : Option α) (n : ℕ) :
    (Run.exec step new (List.replicate n (.put val))).mSize = n % 2 ^ 32 ∧ ∃ used,
      Linked.Segment (Run.exec step new (List.replicate n (.put val))).next
        (Run.exec step new (List.replicate n (.put val))).mHead used none ∧ used.length = n := by
  obtain ⟨-, used, free, hn, -, hused, hsize⟩ := Run.simulation_exec Refines
    (fun _ _ op h => h.step op) (refines_new (α := α)) (List.replicate n (.put val))
  rw [Deque.exec_put, List.nil_append] at hused hsize
  rw [List.length_replicate] at hsize
  exact ⟨hsize, used, hn.head, by rw [← List.length_map (f := _), hused, List.length_replicate]⟩

/-- After 2³² pointers have been put in the size is zero. -/
theorem mSize_wraps : ∃ q : PointerFIFO Unit,
    q = Run.exec step new (List.replicate (2 ^ 32) (.put none)) ∧ q.mSize = 0 ∧
      ∃ used, Linked.Segment q.next q.mHead used none ∧ used.length = 2 ^ 32 := by
  obtain ⟨hsize, hused⟩ := mSize_put (α := Unit) none (2 ^ 32)
  exact ⟨_, rfl, hsize.trans (Nat.mod_self _), hused⟩

end PointerFIFO
end CommonLibs
end OsmoTrx

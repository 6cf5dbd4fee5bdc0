import QkPack.Protocol.ReadBack

/-!
# Values written into the entries of a slot

The reply of `MGET` goes element by element into the entries of one slot of the parent. Keys stay where they
are, and so do the entries of all other slots.
-/

namespace QkPack
open Wire CString Resp

/-- What an entry is given for an element: `null`, or the value without compression. -/
def Reads (lib : SnappyLib) : Elem → Bytes → Prop
  | none, v => v = null
  | some b, v => ∃ stack, uncompressed lib stack b.bytes = .ok v

def Request.slotPlan (p : Request) : List (Int × List Bytes) :=
  p.mapSlotsKv.map fun slot => (slot.1,slot.2.map (·.key))

def Request.slotMarks (p : Request) : List (Int × List (Bytes × Double)) :=
  p.mapSlotsKv.map fun slot => (slot.1,slot.2.map KvPair.mark)

theorem slotPlan_of_slotMarks {p p' : Request} (h : p'.slotMarks = p.slotMarks) : p'.slotPlan = p.slotPlan := by
  have hkeys (q : Request) : q.slotPlan = q.slotMarks.map fun slot => (slot.1,slot.2.map Prod.fst) := by
    simp only [Request.slotPlan, Request.slotMarks, List.map_map, Function.comp_def, KvPair.mark]
  rw [hkeys, hkeys, h]

structure SlotWritten (slotId : Int) (kvs : List KvPair) (p p' : Request) : Prop where
  rest : p' = { p with mapSlotsKv := p'.mapSlotsKv }
  here : p'.mapSlotsKv.lookup slotId = some kvs
  others : ∀ slot, slot ≠ slotId → p'.mapSlotsKv.lookup slot = p.mapSlotsKv.lookup slot
  marks : p'.slotMarks = p.slotMarks

theorem SlotWritten.refl {p : Request} {slotId : Int} {kvs : List KvPair}
    (h : p.mapSlotsKv.lookup slotId = some kvs) : SlotWritten slotId kvs p p :=
  ⟨rfl,h,fun _ _ => rfl,rfl⟩

theorem SlotWritten.trans {p q r : Request} {slotId : Int} {kvs kvs' : List KvPair}
    (hpq : SlotWritten slotId kvs p q) (hqr : SlotWritten slotId kvs' q r) :
    SlotWritten slotId kvs' p r where
  rest := by
    rw [hqr.rest, hpq.rest]
  here := hqr.here
  others slot hne := (hqr.others slot hne).trans (hpq.others slot hne)
  marks := hqr.marks.trans hpq.marks

theorem lookup_map_other {α β : Type} [DecidableEq α] (l : List (α × β)) {k k' : α} (f : β → β)
    (hne : k' ≠ k) : (l.map fun x => if x.1 = k then (x.1,f x.2) else x).lookup k' = l.lookup k' := by
  induction l with
  | nil => rfl
  | cons x l ih =>
    obtain ⟨a,b⟩ := x
    by_cases ha : a = k
    · subst ha
      have hk : (k' == a) = false := beq_eq_false_iff_ne.mpr hne
      simp only [List.map_cons, if_true, List.lookup_cons, hk, ih]
    · simp only [List.map_cons, if_neg ha, List.lookup_cons, ih]

theorem setSlotValue_written {p p' : Request} {slotId : Int} {i : Nat} {value : Bytes}
    {kvs : List KvPair} (hkvs : p.mapSlotsKv.lookup slotId = some kvs)
    (h : p.setSlotValue slotId i value = .ok p') :
    SlotWritten slotId (kvs.modify i fun kv => { kv with value := value }) p p' := by
  rw [Request.setSlotValue, hkvs] at h
  simp only at h
  split at h
  · cases h
    refine ⟨rfl,?_,fun slot hne => lookup_map_other p.mapSlotsKv _ hne,?_⟩
    · apply (lookup_map_update p.mapSlotsKv slotId _).trans
      rw [hkvs]
      rfl
    · simp only [Request.slotMarks, List.map_map]
      apply List.map_congr_left
      intro slot _
      simp only [Function.comp]
      split
      · rw [map_mark_modify]
      · rfl
  · cases h

section Elements

variable {proto : RedisProto} {stack : Nat → Bytes} {s s' : ArrayState} {parent : Request}

theorem putSlot_ok {i : Nat} {value : Bytes} (hparent : s.parent = some parent)
    (h : s.putSlot i value = .ok s') :
    ∃ parent', parent.setSlotValue s.request.slotId i value = .ok parent' ∧
      s' = { s with parent := some parent' } := by
  rw [ArrayState.putSlot, hparent] at h
  obtain ⟨parent',hset,h⟩ := bind_eq_ok.mp h
  cases h
  exact ⟨parent',hset,rfl⟩

theorem takeElems_mget_cons {e : Elem} {es : List Elem} {i : Nat}
    (hs : s.request.commandType = .mget) (h : takeElems proto stack i (e :: es) s = .ok s') :
    ∃ value s₁, Reads proto.compress e value ∧ s.putSlot i value = .ok s₁ ∧
      takeElems proto stack (i + 1) es s₁ = .ok s' := by
  cases e with
  | none =>
    obtain ⟨s₁,hput,hrest⟩ := bind_eq_ok.mp h
    rw [getArrayNull, hs] at hput
    exact ⟨null,s₁,rfl,hput,hrest⟩
  | some b =>
    obtain ⟨s₁,hput,hrest⟩ := bind_eq_ok.mp h
    simp only [getArrayValue, hs, ok_bind] at hput
    obtain ⟨value,hvalue,hput⟩ := bind_eq_ok.mp hput
    exact ⟨value,s₁,⟨stack i,hvalue⟩,hput,hrest⟩

theorem takeElems_slot {es : List Elem} {i : Nat} {kvs : List KvPair}
    (hs : s.request.commandType = .mget) (hparent : s.parent = some parent)
    (hkvs : parent.mapSlotsKv.lookup s.request.slotId = some kvs) (hlen : kvs.length = i + es.length)
    (h : takeElems proto stack i es s = .ok s') :
    ∃ parent' kvs', s'.parent = some parent' ∧ SlotWritten s.request.slotId kvs' parent parent' ∧
      kvs'.map (·.key) = kvs.map (·.key) ∧ kvs'.take i = kvs.take i ∧
      List.Forall₂ (Reads proto.compress) es ((kvs'.drop i).map (·.value)) := by
  induction es generalizing i s parent kvs with
  | nil =>
    cases h
    refine ⟨parent,kvs,hparent,.refl hkvs,rfl,rfl,?_⟩
    rw [List.drop_of_length_le (by simp [hlen])]
    exact .nil
  | cons e es ih =>
    rw [List.length_cons] at hlen
    obtain ⟨value,s₁,hreads,hput,hrest⟩ := takeElems_mget_cons hs h
    obtain ⟨parent₁,hset,rfl⟩ := putSlot_ok hparent hput
    have hwritten := setSlotValue_written hkvs hset
    obtain ⟨parent',kvs',hparent',hlater,hkeys,htake,hvalues⟩ :=
      ih (i := i + 1) (s := { s with parent := some parent₁ }) hs rfl hwritten.here
        (by rw [List.length_modify]; omega) hrest
    have hi : i < kvs'.length := by
      have := congrArg List.length hkeys
      simp only [List.length_map, List.length_modify] at this
      omega
    have hentry : kvs'[i]? = (kvs.modify i fun kv => { kv with value := value })[i]? := by
      rw [← List.getElem?_take_of_lt (Nat.lt_succ_self i), htake,
        List.getElem?_take_of_lt (Nat.lt_succ_self i)]
    refine ⟨parent',kvs',hparent',hwritten.trans hlater,hkeys.trans (map_key_modify ..),?_,?_⟩
    · have hshort := congrArg (List.take i) htake
      rw [List.take_take, List.take_take, Nat.min_eq_left (Nat.le_succ i)] at hshort
      rw [hshort, List.take_modify, List.modify_eq_self (by simp)]
    · rw [List.drop_eq_getElem_cons hi, List.map_cons]
      refine .cons ?_ hvalues
      have hold : i < kvs.length := by omega
      rw [List.getElem?_modify_eq, List.getElem?_eq_getElem hi, List.getElem?_eq_getElem hold] at hentry
      have hnew : kvs'[i] = { kvs[i] with value := value } := Option.some.inj hentry
      rw [hnew]
      exact hreads

end Elements

end QkPack

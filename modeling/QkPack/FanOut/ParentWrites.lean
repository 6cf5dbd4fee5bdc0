import QkPack.FanOut.Writes
import Mathlib.Logic.Relation

/-!
# All that sub-requests do to their parent

Whatever happens to the sub-requests of a round, the parent only sees three kinds of writes: a value for
an entry of a slot, a member for an entry of `map_kv`, and a code with its description.
-/

namespace QkPack
open Wire CString Resp Relation

/-- A single write of a sub-request with this key to its parent. The key of a member is what stands behind the
namespace in an element of a reply. -/
inductive ParentWrite (key : Bytes) (p : Request) : Request → Prop
  | slotValue {slotId : Int} {i : Nat} {value : Bytes} {p' : Request}
      (h : p.setSlotValue slotId i value = .ok p') : ParentWrite key p p'
  | member (kv : KvPair) {value : Bytes} (hvalue : value.length < 2 ^ 31)
      (hkv : kv.key = value.drop p.namespaces.length) :
      ParentWrite key p { p with mapKv := mapPush key kv p.mapKv }
  | code (request : Request) : ParentWrite key p (copyCode request p)

abbrev ParentWrites (key : Bytes) : Request → Request → Prop := ReflTransGen (ParentWrite key)

/-- A parent that is there stays there, and is written to. -/
def LeavesParent (key : Bytes) (parent parent' : Option Request) : Prop :=
  ∀ p, parent = some p → ∃ p', parent' = some p' ∧ ParentWrites key p p'

section Leaves

variable {key : Bytes}

theorem LeavesParent.refl (parent : Option Request) : LeavesParent key parent parent := by
  intro p hp
  exact ⟨p,hp,.refl⟩

theorem LeavesParent.trans {a b c : Option Request} (hab : LeavesParent key a b) (hbc : LeavesParent key b c) :
    LeavesParent key a c := by
  intro p hp
  obtain ⟨q,hq,hpq⟩ := hab p hp
  obtain ⟨r,hr,hqr⟩ := hbc q hq
  exact ⟨r,hr,hpq.trans hqr⟩

theorem LeavesParent.copyCode (parent : Option Request) (request : Request) :
    LeavesParent key parent (parent.map (copyCode request)) := by
  intro p hp
  rw [hp]
  exact ⟨_,rfl,.single (.code request)⟩

theorem LeavesParent.getD {p : Request} {parent : Option Request} (h : LeavesParent key (some p) parent) :
    ParentWrites key p (parent.getD p) := by
  obtain ⟨p',rfl,hwrites⟩ := h p rfl
  exact hwrites

end Leaves

section Decode

variable {proto : RedisProto} {stack : Nat → Bytes} {reply : Bytes} {s s' : ArrayState}

/-- The member that waits for its score comes from an element of the reply. -/
def ArrayState.FromReply (s : ArrayState) : Prop :=
  ∀ p, s.parent = some p → ∃ value : Bytes, value.length < 2 ^ 31 ∧ s.member = value.drop p.namespaces.length

/-- What an element of a reply does. -/
structure Takes (s s' : ArrayState) : Prop where
  key : s'.request.key = s.request.key
  fromReply : s.FromReply → s'.FromReply
  leaves : s.FromReply → LeavesParent s.request.key s.parent s'.parent

theorem Takes.refl (s : ArrayState) : Takes s s := ⟨rfl,id,fun _ => .refl _⟩

theorem Takes.trans {s t u : ArrayState} (hst : Takes s t) (htu : Takes t u) : Takes s u where
  key := htu.key.trans hst.key
  fromReply hs := htu.fromReply (hst.fromReply hs)
  leaves hs := (hst.leaves hs).trans (hst.key ▸ htu.leaves (hst.fromReply hs))

theorem setSlotValue_namespaces {p p' : Request} {slotId : Int} {i : Nat} {value : Bytes}
    (h : p.setSlotValue slotId i value = .ok p') : p'.namespaces = p.namespaces := by
  unfold Request.setSlotValue at h
  split at h
  · cases h
  · split at h
    · cases h
      rfl
    · cases h

theorem ArrayStep.takes (h : ArrayStep proto s s') : Takes s s' := by
  cases h with
  | passed => exact .refl s
  | slot hp hset =>
    refine ⟨rfl,?_,?_⟩
    · intro hs q hq
      cases hq
      obtain ⟨element,hlen,hmember⟩ := hs _ hp
      rw [setSlotValue_namespaces hset]
      exact ⟨element,hlen,hmember⟩
    · intro _ q hq
      cases hp.symm.trans hq
      exact ⟨_,rfl,.single (.slotValue hset)⟩
  | listed member => exact ⟨rfl,id,fun _ => .refl _⟩
  | named hp hlen =>
    refine ⟨rfl,?_,fun _ => .refl _⟩
    intro _ q hq
    cases hp.symm.trans hq
    exact ⟨_,hlen,rfl⟩
  | scored hp value =>
    refine ⟨rfl,?_,?_⟩
    · intro _ q _
      exact ⟨[],by norm_num,by rw [List.drop_nil]⟩
    · intro hs q hq
      cases hp.symm.trans hq
      obtain ⟨element,hlen,hmember⟩ := hs _ hp
      exact ⟨_,rfl,.single (.member _ hlen hmember)⟩

theorem arraySteps_take (h : Relation.ReflTransGen (ArrayStep proto) s s') : Takes s s' := by
  induction h with
  | refl => exact .refl s
  | tail _ hstep ih => exact ih.trans hstep.takes

theorem redisProtoDecode_leaves {scripts : ScriptCache} {parent : Option Request} {request : Request}
    {d : Decoded} (h : redisProtoDecode proto stack scripts parent request = .ok d) :
    LeavesParent request.key parent d.parent := by
  cases redisProtoDecode_cases h with
  | nothing | redirection | complaint | status | integer => exact .refl _
  | bulk | nullArray =>
    rw [ttlCheck_parent]
    exact .refl _
  | array _ hsteps =>
    rw [ttlCheck_parent]
    refine (arraySteps_take hsteps).leaves ?_
    intro _ _
    exact ⟨[],by norm_num,by rw [List.drop_nil]⟩

end Decode

section Handler

variable {h : Handler} {conf : UpstreamConf} {key : Bytes}

theorem processReply_leaves {stack : Nat → Bytes} {shared : Shared} {parent : Option Request}
    {request : Request} {p : Processed} (hp : processReply h stack shared parent request = .ok p) :
    LeavesParent request.key parent p.parent := by
  obtain ⟨d,hd,hend⟩ := processReply_cases hp
  have hleaves := redisProtoDecode_leaves hd
  cases hend with
  | taken | redirected => exact hleaves
  | refused | failed | lost => exact hleaves.trans (.copyCode d.parent _)

theorem createRequestError_leaves (scripts : ScriptCache) (parent : Option Request) (request : Request) :
    LeavesParent key parent (createRequestError h scripts parent request).2.2 := by
  have hcopy : LeavesParent key parent (parent.map (copyCode request)) := .copyCode parent request
  unfold createRequestError
  simp only
  split
  · exact hcopy.trans (.copyCode _ request)
  · split
    · exact hcopy
    · exact hcopy

theorem reinitRequest_leaves (scripts : ScriptCache) (parent : Option Request) (request : Request) :
    LeavesParent key parent (reinitRequest h scripts parent request).2.2 := by
  unfold reinitRequest
  split
  · exact createRequestError_leaves scripts parent _
  · split
    · exact .refl _
    · exact .refl _

theorem refuseSub_writes (scripts : ScriptCache) (parent request : Request) :
    ParentWrites key parent (refuseSub h conf scripts parent request).2 := by
  have hleaves : LeavesParent key (some parent) (createRequestError h scripts (some parent) request).2.2 :=
    createRequestError_leaves scripts (some parent) request
  replace hleaves := hleaves.getD
  unfold refuseSub
  split
  · rename_i heq
    rw [heq] at hleaves
    exact hleaves
  · rename_i heq
    rw [heq] at hleaves
    exact hleaves

theorem encodeSub_writes {scripts : ScriptCache} {parent request : Request} {created : Sub × Request}
    (hcreated : encodeSub h conf scripts parent request = some created) :
    ParentWrites key parent created.2 := by
  unfold encodeSub at hcreated
  split at hcreated
  · cases hcreated
    exact .refl
  · cases hcreated
    exact refuseSub_writes scripts parent _
  · cases hcreated

theorem createSub_writes {shared : Shared} {parsed : Bool} {nodeIp : Bytes} {parent : Request}
    {sub : SubRequest} {created : Sub × Request}
    (hcreated : createSub h conf shared parsed nodeIp parent sub = some created) :
    ParentWrites key parent created.2 := by
  unfold createSub at hcreated
  split at hcreated
  · cases hcreated
    exact .refl
  · split at hcreated
    · split at hcreated
      · split at hcreated
        · cases hcreated
          exact refuseSub_writes _ parent _
        · exact encodeSub_writes hcreated
      · exact encodeSub_writes hcreated
    · cases hcreated
      exact refuseSub_writes _ parent _

theorem parentAfter_writes (u : Upstream) (parent : Request) (e : Event) :
    ParentWrites u.request.key parent (u.parentAfter h parent e) := by
  unfold Upstream.parentAfter
  split
  · split
    · exact (reinitRequest_leaves _ _ _).getD
    · exact .refl
  · split
    · exact .refl
    · unfold repliedParent
      split
      · rename_i hp
        exact (processReply_leaves hp).getD
      · exact .refl
  · exact .refl

end Handler

section Rounds

variable {h : Handler} {limits : Limits} {conf : UpstreamConf} {s s' : FanOut}

/-- An event of the fan-out: a sub-request writes to the parent, which keeps its lists; or the parent is
called again; or the request ends with an error page. -/
inductive FanOut.Next (h : Handler) (limits : Limits) (s s' : FanOut) : Prop
  | writes (key : Bytes) (request : Request) (hsubs : s.subs ≠ [])
      (hkey : key = [] ∨ ∃ u, .running u ∈ s.subs ∧ key = u.request.key)
      (hwrites : ParentWrites key s.parent.request request)
      (hparent : s'.parent = { s.parent with request := request }) (hfinal : s'.final = none)
  | call (cost : Nat) (hs' : s' = qksubrequestPost h limits s
      { s.parent with request := { s.parent.request with cost := cost } })
  | ends (hfinal : s'.final = some .internalError)

theorem fanStep_next {e : FanEvent} (hstep : fanStep h limits conf s e = some s') :
    s.final = none ∧ s.Next h limits s' := by
  obtain ⟨hfinal,hmove⟩ := fanStep_move hstep
  refine ⟨hfinal,?_⟩
  cases hmove with
  | create hsub hcreate =>
    have hsubs := List.ne_nil_of_mem (List.mem_of_getElem? hsub)
    exact .writes [] _ hsubs (.inl rfl) (createSub_writes hcreate) rfl hfinal
  | sub hsub _ _ =>
    have hmem := List.mem_of_getElem? hsub
    exact .writes _ _ (List.ne_nil_of_mem hmem) (.inr ⟨_,hmem,rfl⟩) (parentAfter_writes _ _ _) rfl hfinal
  | error _ => exact .ends rfl
  | post _ => exact .call _ rfl

end Rounds

end QkPack

import QkPack.FanOut.Calls
import QkPack.FanOut.Delivery
import QkPack.Parser.ReadSpecs
import QkPack.Protocol.CommandArgs

/-!
# What a delivered round achieves

The sub-requests of a round are sent and served in any order. A rule for a round says what stays true all
the time, what a sub-request is once it has been sent, and what has been done once it is answered.
-/

namespace QkPack
open Wire CString Resp

def DeliveryEvent.SentWith (P : ScriptCache → Prop) : DeliveryEvent → Prop
  | .send _ shared _ => P shared.scripts
  | _ => True

theorem DeliveryEvent.sentWith_true (e : DeliveryEvent) : e.SentWith fun _ => True := by
  cases e <;> trivial

theorem forall₂_replace {α β : Type} {R R' : α → β → Prop} {as : List α} {bs : List β}
    (hall : List.Forall₂ R as bs) {i : Nat} {b : β} (hi : bs[i]? = some b) :
    ∃ a, as[i]? = some a ∧ R a b ∧ ∀ {b'}, R' a b' →
      (∀ j a' c, j ≠ i → as[j]? = some a' → R a' c → R' a' c) → List.Forall₂ R' as (bs.set i b') := by
  induction hall generalizing i with
  | nil => cases hi
  | @cons a c as bs hfirst hrest ih =>
    cases i with
    | zero =>
      cases hi
      refine ⟨a,rfl,hfirst,?_⟩
      intro b' hnew hothers
      refine .cons hnew (List.forall₂_iff_get.mpr ⟨hrest.length_eq,?_⟩)
      intro j ha hb
      exact hothers (j + 1) _ _ (Nat.succ_ne_zero j) (List.getElem?_eq_getElem ha) (hrest.get ha hb)
    | succ i =>
      obtain ⟨a',ha',hrel,hset⟩ := ih hi
      refine ⟨a',ha',hrel,?_⟩
      intro b' hnew hothers
      refine .cons (hothers 0 a c (Nat.succ_ne_zero i).symm rfl hfirst) (hset hnew ?_)
      intro j other x hj
      exact hothers (j + 1) other x (fun hsame => hj (Nat.succ.inj hsame))

theorem exists_of_forall₂ {α β : Type} {R : α → β → Prop} {as : List α} {bs : List β} (hall : List.Forall₂ R as bs)
    {i : Nat} {b : β} (hi : bs[i]? = some b) : ∃ a, as[i]? = some a ∧ R a b := by
  obtain ⟨hlt,rfl⟩ := List.getElem?_eq_some_iff.mp hi
  have hlt' : i < as.length := hall.length_eq ▸ hlt
  exact ⟨as[i],List.getElem?_eq_getElem hlt',hall.get hlt' hlt⟩

theorem forall_of_answered {α : Type} {R : α → Flight → Prop} {P : α → Prop} {as : List α}
    {flights : List Flight} (hflights : List.Forall₂ R as flights)
    (hall : flights.all Flight.isAnswered = true)
    (hP : ∀ a flight, R a flight → flight.isAnswered = true → P a) : ∀ a ∈ as, P a := by
  induction hflights with
  | nil => exact List.forall_mem_nil _
  | @cons a flight as flights hfirst hrest ih =>
    rw [List.all_cons, Bool.and_eq_true] at hall
    rw [List.forall_mem_cons]
    exact ⟨hP a flight hfirst hall.1,ih hall.2⟩

/-- A sub-request that has been sent: it was opened for a command, and the command was built. -/
structure SentAs (h : Handler) (shared : Shared) (p : Request) (command : CommandType) (opened built : Request) :
    Prop where
  fresh : opened.code = .ok
  opens : opened.commandType = command
  encoded : (redisProtoEncode h.proto shared.scripts (some p) opened).1 = .ok built
  code : built.code = .ok
  command : built.commandType = command
  key : built.key = opened.key
  slotId : built.slotId = opened.slotId

theorem sendSub_sentAs {h : Handler} {conf : UpstreamConf} {shared : Shared} {nodeIp : Bytes} {p built : Request}
    {sub : SubRequest} (hsend : sendSub h conf shared nodeIp p sub = some built) :
    ∃ request ip, qkupstreamInit sub = some request ∧
      SentAs h shared p (subCommand p sub) (sub.opened conf p ip h.memory request) built := by
  obtain ⟨request,ip,hinit,hbuilt,-,hcode⟩ := sendSub_eq_some hsend
  have hfresh : (sub.opened conf p ip h.memory request).code = .ok := (qkupstreamInit_fresh hinit).2
  obtain ⟨-,-,hcommand,hkey,hslot⟩ := redisProtoEncode_sameOrigin (sub.opened conf p ip h.memory request) hfresh hbuilt
  exact ⟨request,ip,hinit,hfresh,rfl,hbuilt,hcode,hcommand,hkey,hslot⟩

section SentAs

variable {h : Handler} {shared : Shared} {p opened built : Request} {command : CommandType}

theorem SentAs.not_code (hs : SentAs h shared p command opened built) : ¬ opened.code ≠ .ok := not_not.mpr hs.fresh

theorem SentAs.sends (hs : SentAs h shared p command opened built) (hbatch : command ≠ .zbatchadd) :
    Sends opened (commandArgs h.proto (redisProtoEncode h.proto shared.scripts (some p) opened).2 (some p) opened)
      (redisProtoEncode h.proto shared.scripts (some p) opened).1 := by
  apply sends_encode
  intro _
  rw [hs.opens]
  exact hbatch

end SentAs

/-- What is done by a sub-request is not undone by the others. -/
structure RoundRule (h : Handler) (conf : UpstreamConf) (node : Redis.Node) where
  subs : List SubRequest
  /-- The caches of hashes that may be used. -/
  Cache : ScriptCache → Prop
  Inv : Redis.Store → Request → Prop
  Sent : SubRequest → Request → Prop
  Done : SubRequest → Redis.Store → Request → Prop
  send : ∀ {sub store parent shared nodeIp built}, sub ∈ subs → Cache shared.scripts → Inv store parent →
    sendSub h conf shared nodeIp parent sub = some built → Sent sub built
  serve : ∀ {sub store parent shared stack built store' parent'}, sub ∈ subs → Inv store parent →
    Sent sub built → serveSub h node shared stack store parent built = some (store',parent') →
    Inv store' parent' ∧ Done sub store' parent' ∧
      ∀ other, Done other store parent → Done other store' parent'

theorem slot_of_sub {p₀ : Parent} {kvs : List KvPair} (uri : CommandType)
    (hslots : p₀.request.mapSlotsKv = pushSlots p₀.request.namespaces kvs []) {slot : Int}
    (hmem : slot ∈ p₀.request.mapSlotsKv.map (·.1)) :
    slotSub uri slot ∈ p₀.slotSubs uri ∧ ∃ request, qkupstreamInit (slotSub uri slot) = some request ∧
      request.slotId = slot := by
  constructor
  · obtain ⟨⟨_,entries⟩,hentries,rfl⟩ := List.mem_map.mp hmem
    exact List.mem_map.mpr ⟨_,hentries,rfl⟩
  · rw [hslots] at hmem
    obtain ⟨n,hn,rfl⟩ := slot_of_mem hmem
    have hinit := qkupstreamInit_slotSub uri hn
    exact ⟨_,hinit,rfl⟩

theorem serveSub_samePlan {h : Handler} {node : Redis.Node} {shared : Shared} {stack : Nat → Bytes}
    {store store' : Redis.Store} {parent parent' request : Request}
    (hserve : serveSub h node shared stack store parent request = some (store',parent')) :
    SamePlan parent parent' := by
  obtain ⟨argv,reply,p,-,-,-,hp,-,-,rfl⟩ := serveSub_processed hserve
  exact (processReply_leaves hp).getD.samePlan

namespace RoundRule

variable {h : Handler} {limits : Limits} {conf : UpstreamConf} {node : Redis.Node}
  (rule : RoundRule h conf node)

inductive Flies (store : Redis.Store) (parent : Request) (sub : SubRequest) : Flight → Prop
  | waiting : Flies store parent sub (.waiting sub)
  | sent {request : Request} (hsent : rule.Sent sub request) : Flies store parent sub (.sent request)
  | answered (hdone : rule.Done sub store parent) : Flies store parent sub .answered

structure Holds (d : Delivery) : Prop where
  inv : rule.Inv d.store d.parent.request
  flights : List.Forall₂ (rule.Flies d.store d.parent.request) rule.subs d.flights

variable {rule} {d d' : Delivery}

theorem holds_of_waiting (hinv : rule.Inv d.store d.parent.request)
    (hflights : d.flights = rule.subs.map .waiting) : rule.Holds d := by
  refine ⟨hinv,?_⟩
  rw [hflights, List.forall₂_map_right_iff, List.forall₂_same]
  intro sub _
  exact .waiting

theorem Flies.mono {store store' : Redis.Store} {parent parent' : Request} {sub : SubRequest}
    {flight : Flight} (hflies : rule.Flies store parent sub flight)
    (hdone : rule.Done sub store parent → rule.Done sub store' parent') :
    rule.Flies store' parent' sub flight := by
  cases hflies with
  | waiting => exact .waiting
  | sent hsent => exact .sent hsent
  | answered h => exact .answered (hdone h)

/-- The steps of a round: the parent keeps its plan, and nothing is undone. -/
structure Advances (rule : RoundRule h conf node) (d d' : Delivery) : Prop where
  holds : rule.Holds d'
  final : d'.final = none
  vectorSub : d'.parent.vectorSub = d.parent.vectorSub
  plan : SamePlan d.parent.request d'.parent.request
  done : ∀ sub, rule.Done sub d.store d.parent.request → rule.Done sub d'.store d'.parent.request

theorem Holds.step (hd : rule.Holds d) {e : DeliveryEvent} (he : e ≠ .post) (hcache : e.SentWith rule.Cache)
    (hstep : deliveryStep h limits conf node d e = some d') : rule.Advances d d' := by
  have hopen := deliveryStep_open hstep
  cases e with
  | send i shared nodeIp =>
    obtain ⟨sub,request,hi,hsend,rfl⟩ := deliveryStep_send hstep
    obtain ⟨sub',hsub,hflies,hset⟩ := forall₂_replace hd.flights hi
    cases hflies
    have hsent := rule.send (List.mem_of_getElem? hsub) hcache hd.inv hsend
    exact ⟨⟨hd.inv,hset (.sent hsent) fun _ _ _ _ _ hother => hother⟩,hopen,rfl,.refl _,fun _ => id⟩
  | serve i shared stack =>
    obtain ⟨request,store',parent',hi,hserve,rfl⟩ := deliveryStep_serve hstep
    obtain ⟨sub,hsub,hflies,hset⟩ := forall₂_replace hd.flights hi
    cases hflies with
    | sent hsent =>
      obtain ⟨hinv,hdone,hothers⟩ := rule.serve (List.mem_of_getElem? hsub) hd.inv hsent hserve
      refine ⟨⟨hinv,hset (.answered hdone) ?_⟩,hopen,rfl,serveSub_samePlan hserve,hothers⟩
      intro _ other _ _ _ hother
      exact hother.mono (hothers other)
  | post => exact absurd rfl he

theorem Holds.sent (hd : rule.Holds d) {i : Nat} {request : Request} (hi : d.flights[i]? = some (.sent request)) :
    ∃ sub ∈ rule.subs, rule.Sent sub request := by
  obtain ⟨sub,hsub,hflies⟩ := exists_of_forall₂ hd.flights hi
  cases hflies with
  | sent hsent => exact ⟨sub,List.mem_of_getElem? hsub,hsent⟩

theorem Holds.all_done (hd : rule.Holds d) (hall : d.flights.all Flight.isAnswered = true) :
    ∀ sub ∈ rule.subs, rule.Done sub d.store d.parent.request := by
  refine forall_of_answered hd.flights hall ?_
  intro sub flight hflies hanswered
  cases hflies with
  | waiting => cases hanswered
  | sent _ => cases hanswered
  | answered hdone => exact hdone

end RoundRule

/-- A round in which every sub-request does something to its own key, and does it once. -/
structure OnceRule (h : Handler) (conf : UpstreamConf) (node : Redis.Node) where
  keys : List Bytes
  nodup : keys.Nodup
  sub : Bytes → SubRequest
  Cache : ScriptCache → Prop
  Inv : Redis.Store → Request → Prop
  /-- Before and after the sub-request of a key is served. -/
  Before : Bytes → Redis.Store → Request → Prop
  Done : Bytes → Redis.Store → Request → Prop
  Sent : Bytes → Request → Prop
  send : ∀ {key store parent shared nodeIp built}, key ∈ keys → Cache shared.scripts → Inv store parent →
    sendSub h conf shared nodeIp parent (sub key) = some built → Sent key built
  serve : ∀ {key store parent shared stack built store' parent'}, key ∈ keys → Inv store parent →
    Before key store parent → Sent key built →
    serveSub h node shared stack store parent built = some (store',parent') →
    Inv store' parent' ∧ Done key store' parent' ∧ ∀ other ≠ key,
      (Before other store parent → Before other store' parent') ∧
        (Done other store parent → Done other store' parent')

namespace OnceRule

variable {h : Handler} {limits : Limits} {conf : UpstreamConf} {node : Redis.Node} (rule : OnceRule h conf node)

inductive Flies (store : Redis.Store) (parent : Request) (key : Bytes) : Flight → Prop
  | waiting (hbefore : rule.Before key store parent) : Flies store parent key (.waiting (rule.sub key))
  | sent {request : Request} (hbefore : rule.Before key store parent) (hsent : rule.Sent key request) :
      Flies store parent key (.sent request)
  | answered (hdone : rule.Done key store parent) : Flies store parent key .answered

structure Holds (d : Delivery) : Prop where
  inv : rule.Inv d.store d.parent.request
  flights : List.Forall₂ (rule.Flies d.store d.parent.request) rule.keys d.flights

variable {rule} {d d' : Delivery}

theorem holds_of_waiting (hinv : rule.Inv d.store d.parent.request)
    (hbefore : ∀ key ∈ rule.keys, rule.Before key d.store d.parent.request)
    (hflights : d.flights = (rule.keys.map rule.sub).map .waiting) : rule.Holds d := by
  refine ⟨hinv,?_⟩
  rw [hflights, List.map_map, List.forall₂_map_right_iff, List.forall₂_same]
  intro key hkey
  exact .waiting (hbefore key hkey)

theorem Flies.mono {store store' : Redis.Store} {parent parent' : Request} {key : Bytes} {flight : Flight}
    (hflies : rule.Flies store parent key flight)
    (hkeep : (rule.Before key store parent → rule.Before key store' parent') ∧
      (rule.Done key store parent → rule.Done key store' parent')) : rule.Flies store' parent' key flight := by
  cases hflies with
  | waiting hbefore => exact .waiting (hkeep.1 hbefore)
  | sent hbefore hsent => exact .sent (hkeep.1 hbefore) hsent
  | answered hdone => exact .answered (hkeep.2 hdone)

theorem Holds.step (hd : rule.Holds d) {e : DeliveryEvent} (he : e ≠ .post) (hcache : e.SentWith rule.Cache)
    (hstep : deliveryStep h limits conf node d e = some d') :
    rule.Holds d' ∧ d'.parent.vectorSub = d.parent.vectorSub := by
  cases e with
  | send i shared nodeIp =>
    obtain ⟨sub,request,hi,hsend,rfl⟩ := deliveryStep_send hstep
    obtain ⟨key,hkey,hflies,hset⟩ := forall₂_replace hd.flights hi
    cases hflies with
    | waiting hbefore =>
      have hsent := rule.send (List.mem_of_getElem? hkey) hcache hd.inv hsend
      exact ⟨⟨hd.inv,hset (.sent hbefore hsent) fun _ _ _ _ _ hother => hother⟩,rfl⟩
  | serve i shared stack =>
    obtain ⟨request,store',parent',hi,hserve,rfl⟩ := deliveryStep_serve hstep
    obtain ⟨key,hkey,hflies,hset⟩ := forall₂_replace hd.flights hi
    cases hflies with
    | sent hbefore hsent =>
      obtain ⟨hinv,hdone,hothers⟩ := rule.serve (List.mem_of_getElem? hkey) hd.inv hbefore hsent hserve
      refine ⟨⟨hinv,hset (.answered hdone) ?_⟩,rfl⟩
      intro j other flight hj hother hflight
      -- the keys differ since no key is there twice
      refine hflight.mono (hothers other ?_)
      rintro rfl
      have hlen : i < rule.keys.length := (List.getElem?_eq_some_iff.mp hkey).1
      exact hj ((List.getElem?_inj hlen rule.nodup).mp (hkey.trans hother.symm)).symm
  | post => exact absurd rfl he

theorem Holds.sent (hd : rule.Holds d) {i : Nat} {request : Request} (hi : d.flights[i]? = some (.sent request)) :
    ∃ key ∈ rule.keys, rule.Sent key request := by
  obtain ⟨key,hkey,hflies⟩ := exists_of_forall₂ hd.flights hi
  cases hflies with
  | sent _ hsent => exact ⟨key,List.mem_of_getElem? hkey,hsent⟩

theorem Holds.all_done (hd : rule.Holds d) (hall : d.flights.all Flight.isAnswered = true) :
    ∀ key ∈ rule.keys, rule.Done key d.store d.parent.request := by
  refine forall_of_answered hd.flights hall ?_
  intro key flight hflies hanswered
  cases hflies with
  | waiting _ => cases hanswered
  | sent _ _ => cases hanswered
  | answered hdone => exact hdone

end OnceRule

section Runs

variable {h : Handler} {limits : Limits} {conf : UpstreamConf} {node : Redis.Node}

theorem processParent_ok {p p' : Parent} {rc : QkpackRc} (hprocess : processParent h limits p = (rc,p'))
    (hcode : p'.request.code = .ok) : createSubRequestBody h limits p = (rc,p') ∧ rc ≠ .error := by
  unfold processParent at hprocess
  split at hprocess
  · cases hprocess
    exact absurd hcode (processBodyError_code none _)
  · rename_i hnot
    refine ⟨hprocess,?_⟩
    rintro rfl
    exact hnot p' hprocess

variable {d d' : Delivery}

theorem deliveryStep_final {e : DeliveryEvent} (he : e ≠ .post)
    (hstep : deliveryStep h limits conf node d e = some d') : d'.final = none := by
  have hnone := deliveryStep_open hstep
  cases e with
  | send i shared nodeIp =>
    obtain ⟨_,_,-,-,rfl⟩ := deliveryStep_send hstep
    exact hnone
  | serve i shared stack =>
    obtain ⟨_,_,_,-,-,rfl⟩ := deliveryStep_serve hstep
    exact hnone
  | post => exact absurd rfl he

theorem answered_no_flights {e : DeliveryEvent} (hall : d.flights.all Flight.isAnswered = true) (he : e ≠ .post) :
    deliveryStep h limits conf node d e ≠ some d' := by
  have hanswered {i : Nat} {flight : Flight} (hi : d.flights[i]? = some flight) : flight.isAnswered = true :=
    List.all_eq_true.mp hall flight (List.mem_of_getElem? hi)
  intro hstep
  cases e with
  | send i shared nodeIp =>
    obtain ⟨_,_,hi,-⟩ := deliveryStep_send hstep
    cases hanswered hi
  | serve i shared stack =>
    obtain ⟨_,_,_,hi,-⟩ := deliveryStep_serve hstep
    cases hanswered hi
  | post => exact he rfl

theorem start_no_flights {r : Request} {store : Redis.Store} {e : DeliveryEvent} (he : e ≠ .post) :
    deliveryStep h limits conf node (Delivery.start r store) e ≠ some d :=
  answered_no_flights List.all_nil he

section Rounds

variable {J : Delivery → Prop} {P : DeliveryEvent → Prop} {d₀ : Delivery} {es : List DeliveryEvent}

/-- Runs from round to round: what holds in every round and is carried over by the calls between them holds until the
response, and at the call that makes it. -/
theorem delivered {Q : Redis.Store → Request → Prop}
    (hround : ∀ {d e d'}, J d → e ≠ .post → P e → deliveryStep h limits conf node d e = some d' → J d')
    (hagain : ∀ {d p}, J d → d.flights.all Flight.isAnswered = true →
      createSubRequestBody h limits d.parent = (.again,p) →
      J { d with parent := p, flights := p.subrequest.map .waiting })
    (hover : ∀ {d rc p}, J d → d.flights.all Flight.isAnswered = true →
      processParent h limits d.parent = (rc,p) → rc ≠ .again → Q d.store p.request)
    (hstart : J d₀) (hopen : d₀.final = none) (hevents : ∀ e ∈ es, P e)
    (hrun : Machine.run (deliveryStep h limits conf node) d₀ es = some d) :
    (d.final = none → J d) ∧
      ∀ code, d.final = some code → code = d.parent.request.code ∧ Q d.store d.parent.request := by
  have hstep {d e d'} (hd : (d.final = none → J d) ∧
        ∀ code, d.final = some code → code = d.parent.request.code ∧ Q d.store d.parent.request)
      (hP : P e) (hd' : deliveryStep h limits conf node d e = some d') : (d'.final = none → J d') ∧
        ∀ code, d'.final = some code → code = d'.parent.request.code ∧ Q d'.store d'.parent.request := by
    have hnone := deliveryStep_open hd'
    have hJ := hd.1 hnone
    by_cases he : e = .post
    · subst he
      obtain ⟨hall,⟨p,hprocess,rfl⟩ | ⟨rc,p,hrc,hprocess,rfl⟩⟩ := deliveryStep_post hd'
      · refine ⟨fun _ => hagain hJ hall (processParent_again hprocess),?_⟩
        intro code hcode
        cases hnone.symm.trans hcode
      · have hQ := hover hJ hall hprocess hrc
        refine ⟨?_,?_⟩
        · intro hopen
          cases hopen
        · intro code hcode
          exact ⟨(Option.some.inj hcode).symm,hQ⟩
    · refine ⟨fun _ => hround hJ he hP hd',?_⟩
      intro code hcode
      cases (deliveryStep_final he hd').symm.trans hcode
  have hfirst : (d₀.final = none → J d₀) ∧
      ∀ code, d₀.final = some code → code = d₀.parent.request.code ∧ Q d₀.store d₀.parent.request := by
    refine ⟨fun _ => hstart,?_⟩
    intro code hcode
    cases hopen.symm.trans hcode
  have halong : Machine.Along (deliveryStep h limits conf node) (fun _ e => P e) d₀ es :=
    Machine.along_of_forall hevents
  exact Machine.invariant_run hstep hfirst halong hrun

theorem delivered_ok {Q : Redis.Store → Request → Prop}
    (hround : ∀ {d e d'}, J d → e ≠ .post → P e → deliveryStep h limits conf node d e = some d' → J d')
    (hagain : ∀ {d p}, J d → d.flights.all Flight.isAnswered = true →
      createSubRequestBody h limits d.parent = (.again,p) →
      J { d with parent := p, flights := p.subrequest.map .waiting })
    (hover : ∀ {d rc p}, J d → d.flights.all Flight.isAnswered = true →
      createSubRequestBody h limits d.parent = (rc,p) → rc ≠ .again → rc ≠ .error → Q d.store p.request)
    (hstart : J d₀) (hopen : d₀.final = none) (hevents : ∀ e ∈ es, P e)
    (hrun : Machine.run (deliveryStep h limits conf node) d₀ es = some d) (hfinal : d.final = some .ok) :
    Q d.store d.parent.request := by
  have hend := (delivered (Q := fun store request => request.code = .ok → Q store request) hround hagain (by
    intro d rc p hd hall hprocess hrc hcode
    obtain ⟨hcreate,herror⟩ := processParent_ok hprocess hcode
    exact hover hd hall hcreate hrc herror) hstart hopen hevents hrun).2 .ok hfinal
  exact hend.2 hend.1.symm

end Rounds

end Runs

end QkPack

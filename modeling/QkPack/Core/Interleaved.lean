import QkPack.Core.TenantService
import QkPack.Retry.Repeated

/-!
# Requests on their way at the same time

A worker has many requests on their way: while one of them waits for its node others are sent, carried out and
answered. A request without a reply is given up and written again, so that a node can find several copies of its
command, and carries out those that it finds, even when nobody waits for their replies. No copy is carried out twice;
in the order in which this happens, the answers are those of the stores of the tenants.
-/

namespace QkPack
open Wire CString Resp Json KeyServer

/-- A request on its way. For each copy of its command that was written there is the reply of the node, once the node
has carried it out. -/
structure Trip where
  u : Upstream
  replies : List (Option Bytes)

/-- The request in the state `v`, with no replies to the copies that were written on the way there. -/
def Trip.after (trip : Trip) (v : Upstream) : Trip :=
  ⟨v,trip.replies ++ List.replicate (v.written.length - trip.u.written.length) none⟩

/-- A worker, the key space it works on, and its requests in the order in which they came. -/
structure Worker where
  store : Store
  scripts : ScriptCache
  trips : List Trip

/-- A request comes; something other than a reply happens to it; a node carries out one of its copies; the reply to
the last copy is read; or a key vanishes. -/
inductive WorkerEvent where
  | start (request : Request)
  | turn (i : Nat) (e : Event)
  | carry (i j : Nat)
  | deliver (i : Nat) (cost : Int) (world : World)
  | vanish (ns key : Bytes)

section Steps

variable (proto : RedisProto) (backupServer : Bytes) (printDouble : Double → Bytes) (conf : UpstreamConf)
variable (server : Server)

def startTrip (w : Worker) (request : Request) : Option Worker :=
  match redisProtoEncode proto w.scripts none request with
  | (.ok r,scripts) => some { w with scripts := scripts, trips := w.trips ++ [⟨Upstream.start conf r,[]⟩] }
  | _ => none

def turnTrip (trip : Trip) (e : Event) : Option Trip :=
  if e.silent then (step (yajlHandler proto backupServer 0 printDouble) conf trip.u e).map trip.after else none

/-- The node finds one command in what was written. -/
def carryTrip (store : Store) (trip : Trip) (j : Nat) : Option (Store × Trip) :=
  match trip.replies[j]? with
  | some none => do
    let (_,bytes) ← trip.u.written[j]?
    let (argv,rest) ← parseCommand bytes
    if rest ≠ [] then none
    else
      let (reply,store) := server.exec store argv
      return (store,{ trip with replies := trip.replies.set j (some (encode reply)) })
  | _ => none

def deliverTrip (trip : Trip) (cost : Int) (world : World) : Option Trip :=
  match trip.replies.getLast? with
  | some (some reply) =>
    (step (yajlHandler proto backupServer cost printDouble) conf trip.u (.read world reply)).map fun v =>
      { trip with u := v }
  | _ => none

def workerStep (w : Worker) : WorkerEvent → Option Worker
  | .start request => startTrip proto conf w request
  | .turn i e => do
    let trip ← w.trips[i]?
    let trip ← turnTrip proto backupServer printDouble conf trip e
    return { w with trips := w.trips.set i trip }
  | .carry i j => do
    let trip ← w.trips[i]?
    let (store,trip) ← carryTrip server w.store trip j
    return { w with store := store, trips := w.trips.set i trip }
  | .deliver i cost world => do
    let trip ← w.trips[i]?
    let trip ← deliverTrip proto backupServer printDouble conf trip cost world
    return { w with trips := w.trips.set i trip }
  | .vanish ns key => some { w with store := Function.update w.store (ns ++ key) none }

end Steps

def Worker.idle : Worker := ⟨fun _ => none,fun _ _ => [],[]⟩

/-- The client has its answer, to a copy that was written before the request was marked as failed. -/
def Trip.Answered (trip : Trip) : Prop :=
  trip.u.stage = .done .response ∧ ∃ bytes, trip.u.written.getLast? = some (.ok,bytes)

structure Call where
  ns : Bytes
  key : Bytes
  command : TenantCommand

/-- The request is for the tenant's key and carries its command, with an amount of 32 bits. -/
structure Call.MeantBy (t : Bytes → Int) (call : Call) (request : Request) : Prop where
  addressed : Addressed request call.ns call.key
  carried : call.command.CarriedBy (t call.ns) request
  amount : call.command.InRange none

/-- No world has a parent request, and a key that vanishes is one of a tenant. -/
def WorkerEvent.Single : WorkerEvent → Prop
  | .deliver _ _ world => world.parent = none
  | .vanish ns _ => ns.length = 2
  | _ => True

def requestsOf (es : List WorkerEvent) : List Request :=
  es.filterMap fun
    | .start request => some request
    | _ => none

/-- The copies that are carried out, in the order in which this happens: the numbers of the request and of the copy. -/
def carriedOut (es : List WorkerEvent) : List (Nat × Nat) :=
  es.filterMap fun
    | .carry i j => some (i,j)
    | _ => none

/-- What happens to the stores of the tenants, in this order. -/
def inOrder (calls : List Call) (es : List WorkerEvent) : List TenantEvent :=
  es.filterMap fun
    | .carry i _ => calls[i]?.map fun call => .command call.ns call.key call.command
    | .vanish ns key => some (.expires ns key)
    | _ => none

def answersInOrder (a : TenantStore) (calls : List Call) (es : List WorkerEvent) :
    List ((Nat × Nat) × Bytes × Answer) :=
  (carriedOut es).zip (tenantAnswers a (inOrder calls es))

section Inversion

variable {proto : RedisProto} {backupServer : Bytes} {printDouble : Double → Bytes} {conf : UpstreamConf}
variable {server : Server} {w w' : Worker} {i : Nat}

theorem workerStep_start {request : Request}
    (h : workerStep proto backupServer printDouble conf server w (.start request) = some w') :
    ∃ r scripts, redisProtoEncode proto w.scripts none request = (.ok r,scripts) ∧
      w' = { w with scripts := scripts, trips := w.trips ++ [⟨Upstream.start conf r,[]⟩] } := by
  simp only [workerStep, startTrip] at h
  split at h
  · case h_1 r scripts hencode => exact ⟨r,scripts,hencode,(Option.some.inj h).symm⟩
  · cases h

theorem workerStep_turn {e : Event}
    (h : workerStep proto backupServer printDouble conf server w (.turn i e) = some w') :
    ∃ trip v, w.trips[i]? = some trip ∧ e.silent = true ∧
      step (yajlHandler proto backupServer 0 printDouble) conf trip.u e = some v ∧
      w' = { w with trips := w.trips.set i (trip.after v) } := by
  obtain ⟨trip,htrip,h⟩ := Option.bind_eq_some_iff.mp h
  obtain ⟨trip',hturn,h⟩ := Option.bind_eq_some_iff.mp h
  unfold turnTrip at hturn
  split at hturn
  · case isTrue hsilent =>
    obtain ⟨v,hstep,rfl⟩ := Option.map_eq_some_iff.mp hturn
    exact ⟨trip,v,htrip,hsilent,hstep,(Option.some.inj h).symm⟩
  · cases hturn

theorem workerStep_carry {j : Nat}
    (h : workerStep proto backupServer printDouble conf server w (.carry i j) = some w') :
    ∃ trip copy argv, w.trips[i]? = some trip ∧ trip.replies[j]? = some none ∧ trip.u.written[j]? = some copy ∧
      parseCommand copy.2 = some (argv,[]) ∧ w' = { w with
        store := (server.exec w.store argv).2
        trips := w.trips.set i { trip with
          replies := trip.replies.set j (some (encode (server.exec w.store argv).1)) } } := by
  obtain ⟨trip,htrip,h⟩ := Option.bind_eq_some_iff.mp h
  obtain ⟨⟨store,trip'⟩,hcarry,h⟩ := Option.bind_eq_some_iff.mp h
  unfold carryTrip at hcarry
  split at hcarry
  · case h_1 hnone =>
    obtain ⟨copy,hcopy,hcarry⟩ := Option.bind_eq_some_iff.mp hcarry
    obtain ⟨⟨argv,rest⟩,hparse,hcarry⟩ := Option.bind_eq_some_iff.mp hcarry
    by_cases hrest : rest = []
    · subst hrest
      cases Option.some.inj hcarry
      exact ⟨trip,copy,argv,htrip,hnone,hcopy,hparse,(Option.some.inj h).symm⟩
    · simp [hrest] at hcarry
  · cases hcarry

theorem workerStep_deliver {cost : Int} {world : World}
    (h : workerStep proto backupServer printDouble conf server w (.deliver i cost world) = some w') :
    ∃ trip reply v, w.trips[i]? = some trip ∧ trip.replies.getLast? = some (some reply) ∧
      step (yajlHandler proto backupServer cost printDouble) conf trip.u (.read world reply) = some v ∧
      w' = { w with trips := w.trips.set i { trip with u := v } } := by
  obtain ⟨trip,htrip,h⟩ := Option.bind_eq_some_iff.mp h
  obtain ⟨trip',hdeliver,h⟩ := Option.bind_eq_some_iff.mp h
  unfold deliverTrip at hdeliver
  split at hdeliver
  · case h_1 reply hlast =>
    obtain ⟨v,hstep,rfl⟩ := Option.map_eq_some_iff.mp hdeliver
    exact ⟨trip,reply,v,htrip,hlast,hstep,(Option.some.inj h).symm⟩
  · cases hdeliver

end Inversion

section Order

def Worker.replyAt (w : Worker) (copy : Nat × Nat) : Option Bytes :=
  w.trips[copy.1]?.bind fun trip => trip.replies[copy.2]?.join

/-- The copies that were carried out, none of them twice, and among them those whose replies were read. -/
structure Passed (w : Worker) (order : List (Nat × Nat)) : Prop where
  once : order.Nodup
  mem_iff : ∀ copy, copy ∈ order ↔ (w.replyAt copy).isSome = true
  read : ∀ (i : Nat) (trip : Trip), w.trips[i]? = some trip → trip.u.stage = .done .response →
    ∃ reply, trip.replies.getLast? = some (some reply)

variable {proto : RedisProto} {backupServer : Bytes} {printDouble : Double → Bytes} {conf : UpstreamConf}
variable {server : Server} {w w' : Worker} {order : List (Nat × Nat)} {i : Nat} {trip trip' : Trip}

theorem Passed.lt_length (h : Passed w order) {copy : Nat × Nat} (hcopy : copy ∈ order) :
    copy.1 < w.trips.length := by
  obtain ⟨reply,hreply⟩ := Option.isSome_iff_exists.mp ((h.mem_iff copy).mp hcopy)
  obtain ⟨trip,htrip,-⟩ := Option.bind_eq_some_iff.mp hreply
  exact (List.getElem?_eq_some_iff.mp htrip).1

theorem replyAt_set (htrip : w.trips[i]? = some trip) (copy : Nat × Nat) {store : Store} :
    Worker.replyAt { w with store := store, trips := w.trips.set i trip' } copy =
      if copy.1 = i then trip'.replies[copy.2]?.join else w.replyAt copy := by
  have hlt : i < w.trips.length := (List.getElem?_eq_some_iff.mp htrip).1
  unfold Worker.replyAt
  split
  · case isTrue hsame => simp [hsame, hlt]
  · case isFalse hne => rw [List.getElem?_set_ne (Ne.symm hne)]

theorem Passed.set (h : Passed w order) (htrip : w.trips[i]? = some trip)
    (hreplies : ∀ j : Nat, trip'.replies[j]?.join = trip.replies[j]?.join)
    (hread : trip'.u.stage = .done .response → ∃ reply, trip'.replies.getLast? = some (some reply)) :
    Passed { w with trips := w.trips.set i trip' } order := by
  refine ⟨h.once,fun copy => ?_,fun j other hother => ?_⟩
  · rw [h.mem_iff copy, replyAt_set htrip]
    split
    · case isTrue hsame =>
      subst hsame
      rw [hreplies]
      simp [Worker.replyAt, htrip]
    · rfl
  · rw [List.getElem?_set] at hother
    split at hother
    · split at hother
      · cases hother
        exact hread
      · cases hother
    · exact h.read j other hother

theorem Passed.carry (h : Passed w order) (htrip : w.trips[i]? = some trip) {j : Nat}
    (hnone : trip.replies[j]? = some none) (store : Store) (reply : Bytes) :
    Passed { w with store := store, trips := w.trips.set i { trip with replies := trip.replies.set j (some reply) } }
      (order ++ [(i,j)]) := by
  have hlt : j < trip.replies.length := (List.getElem?_eq_some_iff.mp hnone).1
  have hnew : (i,j) ∉ order := by simp [h.mem_iff, Worker.replyAt, htrip, hnone]
  refine ⟨h.once.append (List.nodup_singleton _) (by simpa using hnew),?_,?_⟩
  · rintro ⟨k,l⟩
    rw [List.mem_append, List.mem_singleton, h.mem_iff, replyAt_set htrip, Prod.mk.injEq]
    by_cases hk : k = i
    · subst hk
      rw [if_pos rfl, List.getElem?_set]
      by_cases hl : l = j
      · subst hl
        simp [hlt]
      · simp [hl, Ne.symm hl, Worker.replyAt, htrip]
    · simp [hk]
  · intro k other hother hdone
    rw [List.getElem?_set] at hother
    split at hother
    · split at hother
      · cases hother
        obtain ⟨last,hlast⟩ := h.read i trip htrip hdone
        rw [List.getLast?_eq_getElem?, List.length_set, List.getElem?_set]
        rw [List.getLast?_eq_getElem?] at hlast
        split
        · simp
        · exact ⟨last,hlast⟩
      · cases hother
    · exact h.read k other hother hdone

theorem workerStep_passed {e : WorkerEvent} (h : Passed w order)
    (hstep : workerStep proto backupServer printDouble conf server w e = some w') :
    Passed w' (order ++ carriedOut [e]) := by
  cases e with
  | start request =>
    obtain ⟨r,scripts,-,rfl⟩ := workerStep_start hstep
    change Passed _ (order ++ [])
    rw [List.append_nil]
    refine ⟨h.once,fun copy => ?_,fun j trip htrip hdone => ?_⟩
    · rw [h.mem_iff copy, Worker.replyAt, Worker.replyAt, List.getElem?_append]
      split
      · rfl
      · case isFalse hge => simp [List.getElem?_eq_none (not_lt.mp hge), List.getElem?_singleton]
    · rw [List.getElem?_append] at htrip
      split at htrip
      · exact h.read j trip htrip hdone
      · rw [List.getElem?_singleton] at htrip
        split at htrip
        · cases htrip
          cases hdone
        · cases htrip
  | turn i e =>
    obtain ⟨trip,v,htrip,hsilent,hv,rfl⟩ := workerStep_turn hstep
    change Passed _ (order ++ [])
    rw [List.append_nil]
    refine h.set htrip (fun j => ?_) fun hdone => absurd hdone (step_silent_unanswered hsilent hv)
    rw [Trip.after, List.getElem?_append]
    split
    · rfl
    · case isFalse hge =>
      rw [List.getElem?_eq_none (not_lt.mp hge), List.getElem?_replicate]
      split
      · rfl
      · rfl
  | carry i j =>
    obtain ⟨trip,copy,argv,htrip,hnone,-,-,rfl⟩ := workerStep_carry hstep
    exact h.carry htrip hnone _ _
  | deliver i cost world =>
    obtain ⟨trip,reply,v,htrip,hlast,-,rfl⟩ := workerStep_deliver hstep
    change Passed _ (order ++ [])
    rw [List.append_nil]
    exact h.set htrip (fun _ => rfl) fun _ => ⟨reply,hlast⟩
  | vanish ns key =>
    cases hstep
    change Passed _ (order ++ [])
    rw [List.append_nil]
    exact ⟨h.once,h.mem_iff,h.read⟩

theorem workerRun_passed {es : List WorkerEvent}
    (hrun : Machine.run (workerStep proto backupServer printDouble conf server) .idle es = some w') :
    Passed w' (carriedOut es) := by
  refine Machine.traced_run (I := fun es w => Passed w (carriedOut es)) ?_ ?_ hrun
  · intro es w e w₁ h hstep
    rw [carriedOut, List.filterMap_append]
    exact workerStep_passed h hstep
  · exact ⟨List.nodup_nil,by simp [Worker.idle, Worker.replyAt, carriedOut],by simp [Worker.idle]⟩

end Order

section Standing

variable (proto : RedisProto) (backupServer : Bytes) (printDouble : Double → Bytes)
variable (shas : QkPack.Script → Bytes) (t : Bytes → Int)

/-- The command of the call was built with the scripts known at that time. -/
def Built (call : Call) (r : Request) : Prop :=
  ∃ request scripts scripts', CacheOf shas scripts ∧ call.MeantBy t request ∧
    redisProtoEncode proto scripts none request = (.ok r,scripts')

/-- Where a call is, when the answers `given` are those to the copies that have been carried out. -/
structure Stands (given : List ((Nat × Nat) × Bytes × Answer)) (i : Nat) (call : Call) (r : Request) (trip : Trip) :
    Prop where
  built : Built proto shas t call r
  repeats : ¬ trip.u.isDone → Repeats r r.protoStr trip.u
  written : ∀ copy ∈ trip.u.written, copy.2 = r.protoStr
  length : trip.replies.length = trip.u.written.length
  replied : ∀ j bytes, trip.replies[j]? = some (some bytes) → ∃ reply answer, bytes = encode reply ∧
    ((i,j),call.key,answer) ∈ given ∧ Conveys proto backupServer printDouble r call.key reply answer
  shown : trip.Answered → ∃ answer cost, ((i,trip.replies.length - 1),call.key,answer) ∈ given ∧
    Shows cost call.key answer trip.u.request.responseBuffer

/-- The stores of the tenants, the calls so far, and the answers to the copies that have been carried out. -/
structure Linear (w : Worker) (a : TenantStore) (calls : List Call) (given : List ((Nat × Nat) × Bytes × Answer)) :
    Prop where
  store : Represents proto t w.store a
  cache : CacheOf shas w.scripts
  length : calls.length = w.trips.length
  stands : ∀ i call trip, calls[i]? = some call → w.trips[i]? = some trip →
    ∃ r, Stands proto backupServer printDouble shas t given i call r trip

end Standing

section Calls

variable {proto : RedisProto} {backupServer : Bytes} {printDouble : Double → Bytes} {conf : UpstreamConf}
variable {server : Server} {lua : Lua} {shas : QkPack.Script → Bytes} {t : Bytes → Int} {call : Call} {r : Request}

theorem TenantCommand.CarriedBy.single {c : TenantCommand} {n : Int} {request : Request} (hc : c.CarriedBy n request) :
    checkSubRequest request = false := by
  cases c with
  | incrBy m =>
    rcases hc.1 with hcommand | hcommand
    · simp [checkSubRequest, hcommand]
    · simp [checkSubRequest, hcommand]
  | get | del | scard =>
    have hcommand : request.commandType = _ := hc
    simp [checkSubRequest, hcommand]
  | set v | sadd vs | srem vs | smembers | sismember v => simp [checkSubRequest, hc.1]

theorem Built.carried (hs : Scripted proto server lua shas) (hbuilt : Built proto shas t call r) {store : Store}
    {held : Option Held} (hheld : HeldAs proto (t call.ns) held (store (call.ns ++ call.key)))
    (hrange : call.command.InRange held) :
    ∃ argv reply item, r.protoStr = encCommand argv ∧
      server.exec store argv = (reply,Function.update store (call.ns ++ call.key) item) ∧
      HeldAs proto (t call.ns) (call.command.apply held).2 item ∧
      Conveys proto backupServer printDouble r call.key reply (call.command.apply held).1 := by
  obtain ⟨request,scripts,scripts',hcache,hmeant,hencode⟩ := hbuilt
  obtain ⟨argv,reply,item,cache,⟨command,value,hencode'⟩,hexec,hconveys,hkept,-⟩ :=
    handles_command backupServer printDouble hs hcache hmeant.addressed hheld hmeant.carried hrange
  cases hencode.symm.trans hencode'
  exact ⟨argv,reply,item,rfl,hexec,hkept,hconveys.noInnerNull,hconveys.size,hconveys.answers⟩

theorem Call.MeantBy.encoded (hs : Scripted proto server lua shas) {scripts : ScriptCache}
    (hcache : CacheOf shas scripts) {request : Request} (hmeant : call.MeantBy t request) :
    ∃ argv scripts', EncodedAs proto scripts request argv scripts' ∧ CacheOf shas scripts' := by
  obtain ⟨store,hnothing⟩ : ∃ store : Store, HeldAs proto (t call.ns) none (store (call.ns ++ call.key)) :=
    ⟨fun _ => none,.nothing⟩
  obtain ⟨argv,-,-,scripts',hencode,-,-,-,hcache'⟩ := handles_command [] (fun _ => []) hs hcache hmeant.addressed
    hnothing hmeant.carried hmeant.amount
  exact ⟨argv,scripts',hencode,hcache'⟩

theorem Built.sound (hs : Scripted proto server lua shas) (hbuilt : Built proto shas t call r) :
    call.ns.length = 2 ∧ checkSubRequest r = false ∧ Unanswered r ∧ ∃ argv, r.protoStr = encCommand argv := by
  obtain ⟨request,scripts,scripts',hcache,hmeant,hencode⟩ := hbuilt
  obtain ⟨argv,_,⟨command,value,hencode'⟩,-⟩ := hmeant.encoded hs hcache
  cases hencode.symm.trans hencode'
  have hunanswered := hmeant.addressed.unanswered
  exact ⟨hmeant.addressed.two,hmeant.carried.single,⟨hunanswered.code,hunanswered.client,hunanswered.desc⟩,argv,rfl⟩

end Calls

section Stands

variable {proto : RedisProto} {backupServer : Bytes} {printDouble : Double → Bytes} {conf : UpstreamConf}
variable {server : Server} {lua : Lua} {shas : QkPack.Script → Bytes} {t : Bytes → Int} {call : Call} {r : Request}
variable {given given' : List ((Nat × Nat) × Bytes × Answer)} {i : Nat} {trip : Trip} {v : Upstream}

theorem Stands.mono (h : Stands proto backupServer printDouble shas t given i call r trip) (hsub : given ⊆ given') :
    Stands proto backupServer printDouble shas t given' i call r trip where
  built := h.built
  repeats := h.repeats
  written := h.written
  length := h.length
  replied := fun j bytes hj => by
    obtain ⟨reply,answer,hbytes,hgiven,hconveys⟩ := h.replied j bytes hj
    exact ⟨reply,answer,hbytes,hsub hgiven,hconveys⟩
  shown := fun hanswered => by
    obtain ⟨answer,cost,hgiven,hshows⟩ := h.shown hanswered
    exact ⟨answer,cost,hsub hgiven,hshows⟩

theorem stands_start (hs : Scripted proto server lua shas) (hbuilt : Built proto shas t call r) :
    Stands proto backupServer printDouble shas t given i call r ⟨Upstream.start conf r,[]⟩ where
  built := hbuilt
  repeats := fun _ => repeats_start (hbuilt.sound hs).2.1 conf
  written := nofun
  length := rfl
  replied := nofun
  shown := fun hanswered => nomatch hanswered.1

theorem Stands.turn (hs : Scripted proto server lua shas)
    (h : Stands proto backupServer printDouble shas t given i call r trip) {e : Event} (he : e.silent = true)
    (hstep : step (yajlHandler proto backupServer 0 printDouble) conf trip.u e = some v) :
    Stands proto backupServer printDouble shas t given i call r (trip.after v) := by
  have horig : r.protoStr ≠ [] := by
    obtain ⟨-,-,-,argv,hargv⟩ := h.built.sound hs
    rw [hargv]
    exact List.cons_ne_nil _ _
  have hturned := (h.repeats (not_isDone_of_step hstep)).turn horig he hstep
  refine ⟨h.built,hturned.repeats,?_,?_,?_,?_⟩
  · rcases hturned.written with hsame | hmore
    · exact hsame ▸ h.written
    · change ∀ copy ∈ v.written, copy.2 = r.protoStr
      rw [hmore]
      exact List.forall_mem_append.mpr ⟨h.written,List.forall_mem_singleton.mpr rfl⟩
  · have hle : trip.u.written.length ≤ v.written.length := by
      rcases hturned.written with hsame | hmore
      · rw [hsame]
      · rw [hmore, List.length_append]
        omega
    rw [Trip.after, List.length_append, List.length_replicate, h.length]
    exact Nat.add_sub_cancel' hle
  · intro j bytes hj
    refine h.replied j bytes ?_
    rw [Trip.after, List.getElem?_append] at hj
    split at hj
    · exact hj
    · rw [List.getElem?_replicate] at hj
      split at hj
      · cases hj
      · cases hj
  · exact fun hanswered => absurd hanswered.1 (step_silent_unanswered he hstep)

theorem Stands.carry (h : Stands proto backupServer printDouble shas t given i call r trip) (j : Nat)
    {reply : Reply} {answer : Answer}
    (hconveys : Conveys proto backupServer printDouble r call.key reply answer) :
    Stands proto backupServer printDouble shas t (given ++ [((i,j),call.key,answer)]) i call r
      { trip with replies := trip.replies.set j (some (encode reply)) } := by
  have hmono := h.mono (List.subset_append_left given [((i,j),call.key,answer)])
  refine ⟨h.built,h.repeats,h.written,List.length_set.trans h.length,?_,?_⟩
  · intro k bytes hk
    rw [List.getElem?_set] at hk
    split at hk
    · case isTrue hsame =>
      subst hsame
      split at hk
      · cases hk
        exact ⟨reply,answer,rfl,List.mem_append_right _ (List.mem_singleton_self _),hconveys⟩
      · cases hk
    · exact hmono.replied k bytes hk
  · rw [List.length_set]
    exact hmono.shown

/-- The reply to the last copy, read before the request is marked: the client is shown the answer. -/
theorem Stands.read (conf : UpstreamConf) (hs : Scripted proto server lua shas)
    (h : Stands proto backupServer printDouble shas t given i call r trip) (hstage : trip.u.stage = .sent)
    (hcode : trip.u.request.code = .ok) {bytes : Bytes} (hlast : trip.replies.getLast? = some (some bytes)) (cost : Int)
    {world : World} (hparent : world.parent = none) :
    ∃ v answer, step (yajlHandler proto backupServer cost printDouble) conf trip.u (.read world bytes) = some v ∧
      v.stage = .done .response ∧ ((i,trip.replies.length - 1),call.key,answer) ∈ given ∧
      Shows cost call.key answer v.request.responseBuffer := by
  have hrepeats := h.repeats (not_isDone_of_sent hstage)
  obtain ⟨nodeIp,nowTries,movedAsk,hrequest⟩ := hrepeats.unmarked hcode
  obtain ⟨-,-,hunanswered,-⟩ := h.built.sound hs
  rw [List.getLast?_eq_getElem?] at hlast
  obtain ⟨reply,answer,rfl,hgiven,hconveys⟩ := h.replied _ bytes hlast
  have hsame : Unanswered trip.u.request := by
    rw [hrequest]
    exact ⟨hunanswered.code,hunanswered.client,hunanswered.desc⟩
  obtain ⟨v,hread,hdone,hshows⟩ := hconveys.read cost conf hstage hrepeats.flag
    (hrepeats.buffer (by simp [hstage]) hcode) hsame (by rw [hrequest]) (by rw [hrequest]) (by rw [hrequest]) hparent
  exact ⟨v,answer,hread,hdone,hgiven,hshows⟩

theorem Stands.deliver (hs : Scripted proto server lua shas)
    (h : Stands proto backupServer printDouble shas t given i call r trip) {bytes : Bytes}
    (hlast : trip.replies.getLast? = some (some bytes)) {cost : Int} {world : World} (hparent : world.parent = none)
    (hstep : step (yajlHandler proto backupServer cost printDouble) conf trip.u (.read world bytes) = some v) :
    Stands proto backupServer printDouble shas t given i call r { trip with u := v } := by
  cases step_upstreamStep hstep with
  | failed _ hfailure => cases hfailure
  | read hstage hheader =>
    have hrepeats := h.repeats (not_isDone_of_sent hstage)
    have hwritten := hheader.written
    have hsame : ∀ copy ∈ v.written, copy.2 = r.protoStr := hwritten ▸ h.written
    by_cases hcode : trip.u.request.code = .ok
    · obtain ⟨v',answer,hread,hdone,hgiven,hshows⟩ := h.read conf hs hstage hcode hlast cost hparent
      cases hstep.symm.trans hread
      exact ⟨h.built,fun hrunning => absurd ⟨_,hdone⟩ hrunning,hsame,h.length.trans (congrArg _ hwritten.symm),
        h.replied,fun _ => ⟨answer,cost,hgiven,hshows⟩⟩
    · refine ⟨h.built,(hrepeats.marked_read hcode hstep).1,hsame,h.length.trans (congrArg _ hwritten.symm),h.replied,?_⟩
      rintro ⟨-,copy,hcopy⟩
      -- the copy that is answered was written after the request was marked
      rw [hwritten, hrepeats.last hstage] at hcopy
      exact absurd (Prod.mk.inj (Option.some.inj hcopy)).1 hcode

end Stands

section Steps

variable {proto : RedisProto} {backupServer : Bytes} {printDouble : Double → Bytes} {conf : UpstreamConf}
variable {server : Server} {lua : Lua} {shas : QkPack.Script → Bytes} {t : Bytes → Int}
variable {w w' : Worker} {a : TenantStore} {calls : List Call} {given : List ((Nat × Nat) × Bytes × Answer)}
variable {i : Nat} {call : Call}

variable (h : Linear proto backupServer printDouble shas t w a calls given)
include h

theorem Linear.call_of_trip {trip : Trip} (htrip : w.trips[i]? = some trip) :
    ∃ call r, calls[i]? = some call ∧ Stands proto backupServer printDouble shas t given i call r trip := by
  have hlt : i < calls.length := h.length ▸ (List.getElem?_eq_some_iff.mp htrip).1
  obtain ⟨r,hstands⟩ := h.stands i _ trip (List.getElem?_eq_getElem hlt) htrip
  exact ⟨calls[i],r,List.getElem?_eq_getElem hlt,hstands⟩

theorem Linear.set (hcall : calls[i]? = some call) {store : Store} {a' : TenantStore}
    (hstore : Represents proto t store a') {given' : List ((Nat × Nat) × Bytes × Answer)} (hsub : given ⊆ given')
    {r : Request} {trip' : Trip} (hstands : Stands proto backupServer printDouble shas t given' i call r trip') :
    Linear proto backupServer printDouble shas t { w with store := store, trips := w.trips.set i trip' } a' calls
      given' := by
  refine ⟨hstore,h.cache,by simp [h.length],?_⟩
  intro j call' other hcall' hother
  rw [List.getElem?_set] at hother
  split at hother
  · case isTrue hsame =>
    subst hsame
    cases hcall.symm.trans hcall'
    split at hother
    · cases hother
      exact ⟨r,hstands⟩
    · cases hother
  · obtain ⟨r',hstands'⟩ := h.stands j call' other hcall' hother
    exact ⟨r',hstands'.mono hsub⟩

theorem Linear.start (hs : Scripted proto server lua shas) {request : Request} (hmeant : call.MeantBy t request)
    (hstep : workerStep proto backupServer printDouble conf server w (.start request) = some w') :
    Linear proto backupServer printDouble shas t w' a (calls ++ [call]) given := by
  obtain ⟨r,scripts,hencode,rfl⟩ := workerStep_start hstep
  obtain ⟨argv,scripts',⟨command,value,hencode'⟩,hcache'⟩ := hmeant.encoded hs h.cache
  cases hencode.symm.trans hencode'
  refine ⟨h.store,hcache',by simp [h.length],?_⟩
  intro j call' trip hcall htrip
  rw [List.getElem?_append] at hcall htrip
  rw [← h.length] at htrip
  split at hcall
  · case isTrue hlt =>
    rw [if_pos hlt] at htrip
    exact h.stands j call' trip hcall htrip
  · case isFalse hge =>
    rw [if_neg hge] at htrip
    obtain ⟨hzero,rfl⟩ : j - calls.length = 0 ∧ call = call' := by
      simpa [List.getElem?_singleton] using hcall
    rw [hzero] at htrip
    cases htrip
    exact ⟨_,stands_start hs ⟨request,w.scripts,scripts,h.cache,hmeant,hencode⟩⟩

theorem Linear.turn (hs : Scripted proto server lua shas) {e : Event}
    (hstep : workerStep proto backupServer printDouble conf server w (.turn i e) = some w') :
    Linear proto backupServer printDouble shas t w' a calls given := by
  obtain ⟨trip,v,htrip,hsilent,hv,rfl⟩ := workerStep_turn hstep
  obtain ⟨call,r,hcall,hstands⟩ := h.call_of_trip htrip
  exact h.set hcall h.store (List.Subset.refl _) (hstands.turn hs hsilent hv)

theorem Linear.carry (hs : Scripted proto server lua shas) {j : Nat}
    (hrange : ∀ call, calls[i]? = some call → call.command.InRange (a call.ns call.key))
    (hstep : workerStep proto backupServer printDouble conf server w (.carry i j) = some w') :
    ∃ call, calls[i]? = some call ∧
      Linear proto backupServer printDouble shas t w' (a.after (.command call.ns call.key call.command)) calls
        (given ++ [((i,j),call.key,(call.command.apply (a call.ns call.key)).1)]) := by
  obtain ⟨trip,copy,argv,htrip,-,hcopy,hparse,rfl⟩ := workerStep_carry hstep
  obtain ⟨call,r,hcall,hstands⟩ := h.call_of_trip htrip
  obtain ⟨htwo,-⟩ := hstands.built.sound hs
  obtain ⟨argv',reply,item,hargv,hexec,hheld,hconveys⟩ :=
    hstands.built.carried hs (h.store _ _ htwo) (hrange call hcall)
  rw [hstands.written copy (List.mem_of_getElem? hcopy), hargv, parseCommand_whole] at hparse
  cases hparse
  refine ⟨call,hcall,?_⟩
  rw [hexec]
  exact h.set hcall (h.store.update htwo hheld) (List.subset_append_left _ _) (hstands.carry j hconveys)

theorem Linear.deliver (hs : Scripted proto server lua shas) {cost : Int} {world : World}
    (hparent : world.parent = none)
    (hstep : workerStep proto backupServer printDouble conf server w (.deliver i cost world) = some w') :
    Linear proto backupServer printDouble shas t w' a calls given := by
  obtain ⟨trip,bytes,v,htrip,hlast,hv,rfl⟩ := workerStep_deliver hstep
  obtain ⟨call,r,hcall,hstands⟩ := h.call_of_trip htrip
  exact h.set hcall h.store (List.Subset.refl _) (hstands.deliver hs hlast hparent hv)

theorem Linear.vanish {ns key : Bytes} (htwo : ns.length = 2) :
    Linear proto backupServer printDouble shas t { w with store := Function.update w.store (ns ++ key) none }
      (a.after (.expires ns key)) calls given :=
  ⟨h.store.update htwo .nothing,h.cache,h.length,h.stands⟩

theorem Linear.can_start (hs : Scripted proto server lua shas) {request : Request} (hmeant : call.MeantBy t request) :
    ∃ w', workerStep proto backupServer printDouble conf server w (.start request) = some w' := by
  obtain ⟨argv,scripts',⟨command,value,hencode⟩,-⟩ := hmeant.encoded hs h.cache
  simp only [workerStep, startTrip, hencode]
  exact ⟨_,rfl⟩

theorem Linear.can_connect (hs : Scripted proto server lua shas) {trip : Trip} (htrip : w.trips[i]? = some trip)
    (hstage : trip.u.stage = .connect) (world : World) (randomIp : Bytes) :
    ∃ v, workerStep proto backupServer printDouble conf server w (.turn i (.connect world randomIp .ok)) =
      some { w with trips := w.trips.set i (trip.after v) } ∧ v.stage = .sent := by
  obtain ⟨call,r,-,hstands⟩ := h.call_of_trip htrip
  obtain ⟨-,-,-,argv,hargv⟩ := hstands.built.sound hs
  have hnot : ¬ trip.u.isDone := by
    rintro ⟨outcome,hdone⟩
    cases hstage.symm.trans hdone
  obtain ⟨v,hpeer,hrepeats,-⟩ := (hstands.repeats hnot).getPeer (h := yajlHandler proto backupServer 0 printDouble)
    hstage world randomIp
  have hconnected := hrepeats.connected_eq (by rw [hargv]; exact List.cons_ne_nil _ _) .ok
  rw [if_neg nofun] at hconnected
  refine ⟨connected .ok v,?_,by rw [hconnected]; rfl⟩
  simp only [workerStep, htrip, Option.bind_eq_bind, Option.bind_some, turnTrip, Event.silent, if_true, step, hstage,
    upstreamConnect, hpeer, Option.map_some, Option.pure_def]

theorem Linear.can_carry (hs : Scripted proto server lua shas) {trip : Trip} (htrip : w.trips[i]? = some trip)
    {j : Nat} (hnone : trip.replies[j]? = some none) :
    ∃ w', workerStep proto backupServer printDouble conf server w (.carry i j) = some w' := by
  obtain ⟨call,r,-,hstands⟩ := h.call_of_trip htrip
  obtain ⟨-,-,-,argv,hargv⟩ := hstands.built.sound hs
  have hlt : j < trip.u.written.length := hstands.length ▸ (List.getElem?_eq_some_iff.mp hnone).1
  have hcopy := List.getElem?_eq_getElem hlt
  have hbytes : trip.u.written[j].2 = encCommand argv :=
    (hstands.written _ (List.getElem_mem hlt)).trans hargv
  simp only [workerStep, htrip, Option.bind_eq_bind, Option.bind_some, carryTrip, hnone, hcopy, hbytes,
    parseCommand_whole, ne_eq, not_true_eq_false, if_false, Option.pure_def]
  exact ⟨_,rfl⟩

theorem Linear.can_deliver (hs : Scripted proto server lua shas) {trip : Trip} (htrip : w.trips[i]? = some trip)
    (hstage : trip.u.stage = .sent) {bytes reply : Bytes} (hcopy : trip.u.written.getLast? = some (.ok,bytes))
    (hlast : trip.replies.getLast? = some (some reply)) (cost : Int) {world : World} (hparent : world.parent = none) :
    ∃ v, workerStep proto backupServer printDouble conf server w (.deliver i cost world) =
      some { w with trips := w.trips.set i { trip with u := v } } ∧ Trip.Answered { trip with u := v } := by
  obtain ⟨call,r,-,hstands⟩ := h.call_of_trip htrip
  have hrepeats := hstands.repeats (not_isDone_of_sent hstage)
  have hcode : trip.u.request.code = .ok :=
    (Prod.mk.inj (Option.some.inj ((hrepeats.last hstage).symm.trans hcopy))).1
  obtain ⟨v,answer,hread,hdone,-⟩ := hstands.read conf hs hstage hcode hlast cost hparent
  refine ⟨v,?_,hdone,bytes,?_⟩
  · simp only [workerStep, htrip, Option.bind_eq_bind, Option.bind_some, deliverTrip, hlast, hread, Option.map_some,
      Option.pure_def]
  · cases step_upstreamStep hread with
    | failed _ hfailure => cases hfailure
    | read _ hheader => exact (congrArg List.getLast? hheader.written).trans hcopy

end Steps

section Runs

variable {proto : RedisProto} {t : Bytes → Int} {server : Server} {lua : Lua} {shas : QkPack.Script → Bytes}
variable (backupServer : Bytes) (printDouble : Double → Bytes) (conf : UpstreamConf)
variable {w w' : Worker} {es : List WorkerEvent}

theorem inOrder_carry {calls : List Call} {i j : Nat} {call : Call} (hcall : calls[i]? = some call) :
    inOrder calls (.carry i j :: es) = .command call.ns call.key call.command :: inOrder calls es := by
  simp [inOrder, hcall]

theorem answersInOrder_carry {a : TenantStore} {calls : List Call} {i j : Nat} {call : Call}
    (hcall : calls[i]? = some call) :
    answersInOrder a calls (.carry i j :: es) = ((i,j),call.key,(call.command.apply (a call.ns call.key)).1) ::
      answersInOrder (a.after (.command call.ns call.key call.command)) calls es := by
  rw [answersInOrder, inOrder_carry hcall]
  rfl

/-- The calls that come during the events are `later`; those that are carried out may have come before. -/
theorem workerRun_linear (hs : Scripted proto server lua shas) {a : TenantStore} {calls later : List Call}
    {given : List ((Nat × Nat) × Bytes × Answer)} (h : Linear proto backupServer printDouble shas t w a calls given)
    (hmeant : List.Forall₂ (Call.MeantBy t) later (requestsOf es)) (hsingle : ∀ e ∈ es, e.Single)
    (hrange : InRangeAlong a (inOrder (calls ++ later) es))
    (hrun : Machine.run (workerStep proto backupServer printDouble conf server) w es = some w') :
    ∃ a', Linear proto backupServer printDouble shas t w' a' (calls ++ later)
      (given ++ answersInOrder a (calls ++ later) es) := by
  induction es generalizing w a calls later given with
  | nil =>
    cases hrun
    cases hmeant
    refine ⟨a,?_⟩
    simpa [answersInOrder, carriedOut] using h
  | cons e es ih =>
    obtain ⟨w₁,hstep,hrest⟩ := Machine.run_cons_eq_some.mp hrun
    obtain ⟨hnow,hothers⟩ := List.forall_mem_cons.mp hsingle
    cases e with
    | start request =>
      cases hmeant with
      | @cons call _ later _ hcall hlater =>
        rw [List.append_cons] at hrange ⊢
        exact ih (h.start hs hcall hstep) hlater hothers hrange hrest
    | turn i e => exact ih (h.turn hs hstep) hmeant hothers hrange hrest
    | carry i j =>
      have hknown : ∀ call, calls[i]? = some call → (calls ++ later)[i]? = some call := fun call hcall =>
        (List.getElem?_append_left (List.getElem?_eq_some_iff.mp hcall).1).trans hcall
      have hinRange : ∀ call, calls[i]? = some call → call.command.InRange (a call.ns call.key) := by
        intro call hcall
        rw [inOrder_carry (hknown call hcall)] at hrange
        exact hrange.1
      obtain ⟨call,hcall,hnext⟩ := h.carry hs hinRange hstep
      rw [inOrder_carry (hknown call hcall)] at hrange
      rw [answersInOrder_carry (hknown call hcall), List.append_cons]
      exact ih hnext hmeant hothers hrange.2 hrest
    | deliver i cost world => exact ih (h.deliver hs hnow hstep) hmeant hothers hrange hrest
    | vanish ns key =>
      cases hstep
      exact ih (h.vanish hnow) hmeant hothers hrange.2 hrest

theorem linear_idle : Linear proto backupServer printDouble shas t .idle (fun _ _ => none) [] [] :=
  ⟨fun _ _ _ => .nothing,fun _ _ => .inl rfl,rfl,by simp⟩

end Runs

section Late

/-- A counter is set and increased. The first copy of the increment gets no reply in time; the second one is answered,
and then the first one is carried out too, before the counter is read. -/
def lateCopy : List WorkerEvent :=
  [.start (tenantRequest (text "aa") .set wordSeven.bytes []),.turn 0 (.connect emptyWorld [] .ok),
    .start (tenantRequest (text "aa") .incr [] []),.carry 0 0,.turn 1 (.connect emptyWorld [] .ok),.turn 1 .timeout,
    .turn 1 (.connect emptyWorld (text "10.0.0.2:7000") .ok),.carry 1 1,.deliver 1 4 emptyWorld,
    .deliver 0 9 emptyWorld,.start (tenantRequest (text "aa") .get [] []),.turn 2 (.connect emptyWorld [] .ok),
    .carry 1 0,.carry 2 0,.deliver 2 1 emptyWorld]

def lateCopyCalls : List Call :=
  [⟨text "aa",text "k",.set wordSeven⟩,⟨text "aa",text "k",.incrBy 1⟩,⟨text "aa",text "k",.get⟩]

theorem lateCopy_runs : (Machine.run (workerStep scriptedProto (text "127.0.0.1:8010") (fun _ => []) (tableConf 3 2)
    scriptedServer) .idle lateCopy).map (fun w => w.trips.map fun trip =>
      (trip.u.stage,trip.u.written.map Prod.fst)) =
    some [(.done .response,[.ok]),(.done .response,[.ok,.ok]),(.done .response,[.ok])] := by
  decide +kernel

end Late

end QkPack

import QkPack.Core.MovedFrame
import QkPack.Core.Slot
import QkPack.Parser.SingleAnswers
import QkPack.Retry.Steps

/-!
# A request that is sent to the wrong node

A node that does not own the slot of a key answers `MOVED` with the address of the owner. The request then goes to the
owner, and the owner is entered into the table.
-/

namespace QkPack
open Wire CString Resp

/-- A cluster whose slots stay where they are. -/
structure StableCluster where
  name : Bytes
  owner : Nat → Bytes
  accepted : ∀ slot, AcceptedNode (owner slot)
  word : ∀ slot, owner slot ≠ [] ∧ ∀ c ∈ owner slot, c ≠ 32 ∧ c ≠ 13

def movedText (slot : Nat) (node : Bytes) : Bytes := text "MOVED" ++ 32 :: (decimal slot ++ 32 :: node)

def movedReply (slot : Nat) (node : Bytes) : Bytes := 45 :: (movedText slot node ++ crlf)

section Moved

variable (c : StableCluster) (slot : Nat)

theorem splitFrom_crlf {node : Bytes} (hline : 13 ∉ node) (piece : Bytes) :
    splitFrom crlf piece 0 (node ++ crlf) = [piece ++ node,[]] := by
  induction node generalizing piece with
  | nil =>
    rw [List.append_nil]
    rfl
  | cons x node ih =>
    obtain ⟨hx,hrest⟩ : 13 ≠ x ∧ 13 ∉ node := not_or.mp (mt List.mem_cons.mpr hline)
    have hnot : crlf.isPrefixOf (x :: (node ++ crlf)) = false := by simp [crlf, List.isPrefixOf, hx]
    rw [List.cons_append, splitFrom, hnot, if_neg (by simp), ih hrest, List.append_assoc]
    rfl

theorem replyWords_moved : replyWords (movedReply slot (c.owner slot)) =
    [45 :: text "MOVED",decimal slot,c.owner slot ++ crlf] := by
  have hsplit : movedReply slot (c.owner slot) =
      (45 :: text "MOVED") ++ 32 :: (decimal slot ++ 32 :: (c.owner slot ++ crlf)) := by
    simp only [movedReply, movedText, List.append_assoc, List.cons_append]
  have hdecimal : (32 : UInt8) ∉ decimal slot := fun hmem => absurd (decimal_isDigit hmem) (by decide)
  have hnode : (32 : UInt8) ∉ c.owner slot ++ crlf := by
    intro hmem
    rcases List.mem_append.mp hmem with hmem | hmem
    · exact ((c.word slot).2 32 hmem).1 rfl
    · exact absurd hmem (by decide)
  have hspace : text " " = [32] := rfl
  rw [replyWords, hsplit, hspace, split_cons (by decide) (by decide), split_cons (decimal_ne_nil slot) hdecimal,
    split_single (by simp [(c.word slot).1]) hnode]

theorem processMoved_moved (hslot : slot < 2 ^ 31) (nodeIp : Bytes) (cluster : ClusterMap) :
    processMoved (movedReply slot (c.owner slot)) c.name nodeIp .moved cluster =
      .ok (.ok,c.owner slot,cluster.set c.name slot (c.owner slot)) := by
  have hline : 13 ∉ c.owner slot := fun hmem => ((c.word slot).2 13 hmem).2 rfl
  have hlines : split (c.owner slot ++ crlf) crlf = [c.owner slot] := by
    rw [split, splitFrom_crlf hline, List.nil_append]
    simp [(c.word slot).1]
  have hnumber : strToInt32 (decimal slot) (-1) = slot := by
    rw [strToInt32_digits (decimal_ne_nil slot) fun _ => decimal_isDigit, digitsValue_decimal, if_pos hslot]
  rw [processMoved_of_words (.inl rfl) (replyWords_moved c slot), movedNode_of_accepted hlines (c.accepted slot),
    Except.map, hnumber]
  rfl

theorem redisProtoDecode_moved (proto : RedisProto) (stack : Nat → Bytes) (scripts : ScriptCache)
    {request : Request} (hcode : request.code = .ok)
    (hreply : request.responseBuffer = movedReply slot (c.owner slot)) :
    redisProtoDecode proto stack scripts none request = .ok ⟨.moved,request,none,scripts⟩ := by
  have hpeek : peek (movedReply slot (c.owner slot)) 1 = movedText slot (c.owner slot) ++ crlf :=
    @peek_append [45] _ _ rfl
  have hword : startsWith (movedText slot (c.owner slot) ++ crlf) "MOVED" = true := by
    rw [startsWith, List.isPrefixOf_iff_prefix, movedText, List.append_assoc]
    exact List.prefix_append _ _
  have herror : redisProtoDecodeGetError proto (movedReply slot (c.owner slot)) 1 scripts request =
      .ok (.moved,request,scripts) := by
    rw [redisProtoDecodeGetError, hpeek, if_pos hword]
  simp only [redisProtoDecode, hcode, ne_eq, not_true_eq_false, if_false, hreply, movedReply, List.head?_cons]
  rw [← movedReply, herror]
  rfl

theorem headerCheck_moved :
    (headerCheck .ok (movedReply slot (c.owner slot))).response = some (movedReply slot (c.owner slot)) := by
  have hframe : (ngxRedisProtoDecode (movedReply slot (c.owner slot)) 0 (movedReply slot (c.owner slot)).length).rc =
      .ok := (frameBehind_complete_line [] (movedText slot (c.owner slot) ++ crlf) (by decide)).1
  simp [headerCheck, hframe]

end Moved

def Request.slot (request : Request) : Nat := keyHashSlot request.nsKey

/-- A request on its way, as `GetNode` has left it, and what the owner of its slot answers. -/
structure Errand where
  request : Request
  reply : Bytes
  up : Upstream

section Answers

variable (h : Handler) (conf : UpstreamConf) (c : StableCluster)

def Errand.answer (f : Errand) : Bytes :=
  if f.up.attempts.getLast? = some (some (c.owner f.request.slot)) then f.reply
  else movedReply f.request.slot (c.owner f.request.slot)

/-- The table behind `ProcessBody` for the bytes that are read. -/
def learned (world : World) (u : Upstream) (bytes : Bytes) : ClusterMap :=
  match (headerCheck u.movedAsk (u.buffer ++ bytes)).response with
  | none => world.shared.cluster
  | some response =>
    match processReply h world.stack world.shared world.parent
      { u.request with responseBuffer := response, movedAsk := u.movedAsk } with
    | .ok p => p.shared.cluster
    | .error _ => world.shared.cluster

end Answers

/-- The reply ends a request, whichever node it came from. -/
structure Conclusive (h : Handler) (request : Request) (reply : Bytes) : Prop where
  whole : (headerCheck .ok reply).response = some reply
  answers : ∀ stack shared nodeIp nowTries, ∃ p, processReply h stack shared none { request with
    nodeIp := nodeIp
    nowTries := nowTries
    movedAsk := .ok
    responseBuffer := reply } = .ok p ∧ p.rc = .ok ∧ p.shared.cluster = shared.cluster

/-- A request for this cluster that may be sent twice before the last try. -/
structure Routable (h : Handler) (c : StableCluster) (request : Request) (reply : Bytes) : Prop where
  cluster : request.clusterName = c.name
  code : request.code = .ok
  single : checkSubRequest request = false
  tries : 2 < request.tries ∧ request.tries < 2 ^ 32
  sent : request.protoStr ≠ []
  conclusive : Conclusive h request reply

/-- Another attempt is made after a redirection. -/
structure UpstreamConf.Redirects (conf : UpstreamConf) : Prop where
  next : conf.nextUpstream .invalidHeader = true
  peers : conf.single = false ∧ 2 ≤ conf.peersNumber
  tries : conf.upstreamTries = 0 ∨ 2 ≤ conf.upstreamTries

section Phases

variable (conf : UpstreamConf) (c : StableCluster) (request : Request)

def sentOnce (cached : Bool) : Upstream :=
  { Upstream.start conf request with
    stage := .sent
    requestSent := true
    hpTries := 1
    cached := cached
    hasPeer := true
    attempts := [some request.nodeIp]
    written := [(request.code,request.protoStr)] }

def turned (cached : Bool) : Upstream :=
  let owner := c.owner request.slot
  let line := movedReply request.slot owner
  { sentOnce conf request cached with
    stage := .connect
    request := { request with movedAsk := .moved, nodeIp := owner, responseBuffer := line }
    movedAsk := .moved
    upstreamIp := owner
    buffer := line
    hasPeer := false
    peerTries := conf.peersNumber - 1
    usTries := if conf.upstreamTries = 0 then 1 else 2 }

def sentTwice (cached again : Bool) : Upstream :=
  let u := turned conf c request cached
  { u with
    stage := .sent
    request := { u.request with nowTries := 1 }
    movedAsk := .ok
    buffer := []
    cached := again
    hasPeer := true
    hpTries := 2
    attempts := [some request.nodeIp,some (c.owner request.slot)]
    written := [(request.code,request.protoStr),(request.code,request.protoStr)] }

/-- The attempts of a request: one at the owner, or one elsewhere and then one at the owner. -/
def Direct (attempts : List (Option Bytes)) : Prop :=
  request.nodeIp = c.owner request.slot ∧ attempts = [some request.nodeIp]

def Detour (attempts : List (Option Bytes)) : Prop :=
  request.nodeIp ≠ c.owner request.slot ∧ attempts = [some request.nodeIp,some (c.owner request.slot)]

/-- Where a request can be on its way. -/
inductive UnderWay : Upstream → Prop
  | fresh : UnderWay (Upstream.start conf request)
  | asked (cached : Bool) : UnderWay (sentOnce conf request cached)
  | turned (cached : Bool) (hother : request.nodeIp ≠ c.owner request.slot) : UnderWay (turned conf c request cached)
  | again (cached again : Bool) (hother : request.nodeIp ≠ c.owner request.slot) :
      UnderWay (sentTwice conf c request cached again)
  | answered {u : Upstream} (hdone : u.stage = .done .response) (hflag : u.movedAsk = .ok)
      (hattempts : Direct c request u.attempts ∨ Detour c request u.attempts) : UnderWay u

def Upstream.Told (u : Upstream) : Prop := u.movedAsk = .moved ∨ 2 ≤ u.attempts.length

/-- How many events the request has seen: every attempt has two of them. -/
def Upstream.seen (u : Upstream) : Nat := 2 * u.attempts.length - if u.stage = .sent then 1 else 0

end Phases

section Steps

variable {h : Handler} {conf : UpstreamConf} {c : StableCluster} {request : Request} {reply : Bytes}

theorem step_fresh (world : World) (cached : Bool) :
    step h conf (Upstream.start conf request) (.connect world [] (if cached then .cached else .ok)) =
      some (sentOnce conf request cached) := by
  cases cached <;> rfl

theorem Request.slot_lt (request : Request) : request.slot < 2 ^ 31 := by
  have hlt : keyHashSlot request.nsKey < 2 ^ 14 := Nat.mod_lt _ (by norm_num)
  rw [Request.slot]
  omega

section Read

variable {u : Upstream} (scripts : ScriptCache) (stack : Nat → Bytes) (table : ClusterMap)

theorem read_reply (hr : Routable h c request reply) (hstage : u.stage = .sent) (hflag : u.movedAsk = .ok)
    (hbuffer : u.buffer = []) {nodeIp : Bytes} {nowTries : Nat}
    (hrequest : { u.request with responseBuffer := reply, movedAsk := MovedAsk.ok } = { request with
      nodeIp := nodeIp
      nowTries := nowTries
      movedAsk := .ok
      responseBuffer := reply }) :
    (∃ v, step h conf u (.read ⟨⟨table,scripts⟩,none,stack⟩ reply) = some v ∧ v.stage = .done .response ∧
      v.movedAsk = .ok ∧ v.attempts = u.attempts) ∧ learned h ⟨⟨table,scripts⟩,none,stack⟩ u reply = table := by
  obtain ⟨p,hp,hrc,hshared⟩ := hr.conclusive.answers stack ⟨table,scripts⟩ nodeIp nowTries
  have hwhole := hr.conclusive.whole
  constructor
  · refine ⟨{ u with buffer := reply, request := p.request, stage := .done .response },?_,rfl,hflag,rfl⟩
    simp only [step, hstage, processHeader, hflag, hbuffer, List.nil_append, hwhole, processResponse, hrequest, hp,
      hrc, Upstream.finish]
  · simp only [learned, hflag, hbuffer, List.nil_append, hwhole, hrequest, hp, hshared]

theorem processReply_told (hr : Routable h c request reply) :
    processReply h stack ⟨table,scripts⟩ none { request with
        responseBuffer := movedReply request.slot (c.owner request.slot)
        movedAsk := .ok } =
      .ok ⟨.upstreamInvalidHeader,{ request with
        movedAsk := .moved
        nodeIp := c.owner request.slot
        responseBuffer := movedReply request.slot (c.owner request.slot) },none,
        ⟨table.set c.name request.slot (c.owner request.slot),scripts⟩⟩ := by
  let told := { request with
    responseBuffer := movedReply request.slot (c.owner request.slot)
    movedAsk := MovedAsk.ok }
  have hcode : told.code = .ok := hr.code
  have hdecode := redisProtoDecode_moved c request.slot h.proto stack scripts hcode rfl
  have hmoved := processMoved_moved c request.slot request.slot_lt request.nodeIp table
  rw [← hr.cluster] at hmoved ⊢
  simp only [processReply, told, hdecode, ok_bind, hmoved]
  rfl

theorem read_moved (hconf : conf.Redirects) (hr : Routable h c request reply) (cached : Bool) :
    step h conf (sentOnce conf request cached)
        (.read ⟨⟨table,scripts⟩,none,stack⟩ (movedReply request.slot (c.owner request.slot))) =
      some (turned conf c request cached) ∧
    learned h ⟨⟨table,scripts⟩,none,stack⟩ (sentOnce conf request cached)
        (movedReply request.slot (c.owner request.slot)) =
      table.set c.name request.slot (c.owner request.slot) := by
  have hwhole := headerCheck_moved c request.slot
  have htold := processReply_told scripts stack table hr
  have hpeers := hconf.peers
  have hgiveUp : ¬ (conf.upstreamTries ≠ 0 ∧ 1 ≥ conf.upstreamTries) := by
    have htries := hconf.tries
    omega
  have hleft : ¬ (conf.peersNumber - 1 = 0 ∨ conf.nextUpstream .invalidHeader = false) := by
    simp only [hconf.next, Bool.true_eq_false, or_false]
    omega
  constructor
  · simp only [step, sentOnce, processHeader, Upstream.start, List.nil_append, hwhole, processResponse, htold,
      upstreamNext, freePeer, hpeers.1, if_true, reduceCtorEq, and_false, if_false, if_neg hgiveUp,
      Bool.false_eq_true, if_neg hleft]
    rfl
  · simp only [learned, sentOnce, Upstream.start, List.nil_append, hwhole, htold]

end Read

theorem getPeer_redirected {u v : Upstream} {world : World} (hone : u.hpTries = 1) (hflag : u.movedAsk ≠ .ok)
    (hre : processReinitRequest h world { u with cached := false, hasPeer := true } = some v) :
    getPeer h world [] u = some { v with
      hpTries := v.hpTries + 1
      attempts := v.attempts ++ [some v.upstreamIp] } := by
  have hfew : ¬ u.hpTries > 50 := by omega
  have hpos : u.hpTries > 0 := by omega
  have hupdate : updateNodes h world [] { u with cached := false, hasPeer := true } = some v := by
    rw [updateNodes, if_pos hflag, hre]
  simp only [getPeer, if_neg hfew, if_pos hpos, hupdate, Option.map_some]

theorem connected_redirected {u : Upstream} (hsent : u.requestSent = true) (hbuffer : u.requestBuffer ≠ [])
    (hflag : u.movedAsk = .moved) (again : Bool) :
    connected (if again then .cached else .ok) u = { u with
      stage := .sent
      cached := again
      movedAsk := .ok
      buffer := []
      requestSent := true
      written := u.written ++ [(u.request.code,u.requestBufs)] } := by
  have hreinit : qkupstreamReinitRequest { u with cached := again } =
      some { u with cached := again, movedAsk := .ok } := by
    simp only [qkupstreamReinitRequest, if_neg hbuffer, hflag]
  rw [hsent] at hreinit
  cases again
  · simp only [connected, Bool.false_eq_true, if_false, hsent, if_true, reduceCtorEq, decide_false, hreinit,
      sendRequest]
  · simp only [connected, hsent, if_true, reduceCtorEq, decide_true, hreinit, if_false, sendRequest]

theorem step_turned (hr : Routable h c request reply) (cached again : Bool) (world : World) :
    step h conf (turned conf c request cached) (.connect world [] (if again then .cached else .ok)) =
      some (sentTwice conf c request cached again) := by
  let u := { turned conf c request cached with cached := false, hasPeer := true }
  have hsub : checkSubRequest u.request = false := hr.single
  have hlast : u.lastTry = false := by
    have htries : 2 < u.request.tries ∧ u.request.tries < 2 ^ 32 := hr.tries
    have hone : u.hpTries = 1 := rfl
    rw [Bool.eq_false_iff, ne_eq, lastTry_iff (by omega) htries.2 (by omega)]
    omega
  have hreinit : processReinitRequest h world u = some { u with request := u.handed } := by
    rcases processReinitRequest_cases (h := h) world hsub with ⟨htrue,-⟩ | ⟨-,hask,-⟩ | ⟨-,-,hre⟩
    · rw [hlast] at htrue
      cases htrue
    · cases hask
    · exact hre
  let v := { u with
    request := u.handed
    hpTries := u.hpTries + 1
    attempts := u.attempts ++ [some u.upstreamIp] }
  have hflag : (turned conf c request cached).movedAsk ≠ .ok := by
    rw [turned]
    nofun
  have hpeer : getPeer h world [] (turned conf c request cached) = some v := getPeer_redirected rfl hflag hreinit
  have hconnect : step h conf (turned conf c request cached) (.connect world [] (if again then .cached else .ok)) =
      some (connected (if again then .cached else .ok) v) := by
    have hstep : ∀ result, step h conf (turned conf c request cached) (.connect world [] result) =
        upstreamConnect h conf world [] result (turned conf c request cached) := fun _ => rfl
    rw [hstep, upstreamConnect, hpeer]
    cases again <;> rfl
  have hbuffer : v.requestBuffer ≠ [] := hr.sent
  rw [hconnect, connected_redirected rfl hbuffer rfl]
  rfl

theorem UnderWay.connect {u v : Upstream} (hr : Routable h c request reply) (hu : UnderWay conf c request u)
    {world : World} {cached : Bool}
    (hstep : step h conf u (.connect world [] (if cached then .cached else .ok)) = some v) :
    UnderWay conf c request v ∧ v.seen = u.seen + 1 ∧ (v.Told → u.Told) := by
  cases hu with
  | fresh =>
    rw [step_fresh] at hstep
    cases hstep
    refine ⟨.asked cached,rfl,?_⟩
    rintro (hflag | hlength)
    · cases hflag
    · exact absurd hlength (by simp [sentOnce])
  | asked => cases hstep
  | turned first hother =>
    rw [step_turned hr] at hstep
    cases hstep
    exact ⟨.again first cached hother,rfl,fun _ => .inl rfl⟩
  | again => cases hstep
  | answered hdone => simp [step, hdone] at hstep

theorem UnderWay.answer {f : Errand} {v : Upstream} (hconf : conf.Redirects) (hr : Routable h c f.request f.reply)
    (hu : UnderWay conf c f.request f.up) {scripts : ScriptCache} {stack : Nat → Bytes} {table : ClusterMap}
    (hstep : step h conf f.up (.read ⟨⟨table,scripts⟩,none,stack⟩ (f.answer c)) = some v) :
    UnderWay conf c f.request v ∧ v.seen = f.up.seen + 1 ∧
      (learned h ⟨⟨table,scripts⟩,none,stack⟩ f.up (f.answer c) = table ∧ (v.Told → f.up.Told) ∨
        learned h ⟨⟨table,scripts⟩,none,stack⟩ f.up (f.answer c) =
          table.set c.name f.request.slot (c.owner f.request.slot)) := by
  obtain ⟨request,reply,up⟩ := f
  simp only at hr hu hstep ⊢
  cases hu with
  | fresh => cases hstep
  | turned => cases hstep
  | answered hdone => simp [step, hdone] at hstep
  | asked cached =>
    by_cases howner : request.nodeIp = c.owner request.slot
    · have hanswer : (⟨request,reply,sentOnce conf request cached⟩ : Errand).answer c = reply := by
        rw [Errand.answer, if_pos (by rw [← howner]; rfl)]
      rw [hanswer] at hstep ⊢
      obtain ⟨⟨w,hread,hdone,hflag,hattempts⟩,hlearned⟩ :=
        read_reply (u := sentOnce conf request cached) scripts stack table hr rfl rfl rfl rfl
      cases hread.symm.trans hstep
      have hseen : v.seen = (sentOnce conf request cached).seen + 1 := by
        rw [Upstream.seen, hdone, hattempts]
        rfl
      refine ⟨.answered hdone hflag (.inl ⟨howner,hattempts⟩),hseen,.inl ⟨hlearned,?_⟩⟩
      rintro (htold | hlength)
      · rw [hflag] at htold
        cases htold
      · rw [hattempts] at hlength
        exact .inr hlength
    · have hanswer : (⟨request,reply,sentOnce conf request cached⟩ : Errand).answer c =
          movedReply request.slot (c.owner request.slot) := by
        rw [Errand.answer, if_neg]
        intro hsame
        exact howner (Option.some.inj (Option.some.inj hsame))
      rw [hanswer] at hstep ⊢
      obtain ⟨hread,hlearned⟩ := read_moved scripts stack table hconf hr cached
      cases hread.symm.trans hstep
      exact ⟨.turned cached howner,rfl,.inr hlearned⟩
  | again cached again hother =>
    have hanswer : (⟨request,reply,sentTwice conf c request cached again⟩ : Errand).answer c = reply := by
      exact if_pos rfl
    rw [hanswer] at hstep ⊢
    obtain ⟨⟨w,hread,hdone,hflag,hattempts⟩,hlearned⟩ :=
      read_reply (u := sentTwice conf c request cached again) scripts stack table hr rfl rfl rfl rfl
    cases hread.symm.trans hstep
    have hseen : v.seen = (sentTwice conf c request cached again).seen + 1 := by
      rw [Upstream.seen, hdone, hattempts]
      rfl
    exact ⟨.answered hdone hflag (.inr ⟨hother,hattempts⟩),hseen,.inl ⟨hlearned,fun _ => .inr le_rfl⟩⟩

theorem UnderWay.seen_le {u : Upstream} (hu : UnderWay conf c request u) : u.seen ≤ 4 := by
  cases hu with
  | fresh => exact Nat.zero_le _
  | asked => exact (by decide : 1 ≤ 4)
  | turned => exact (by decide : 2 ≤ 4)
  | again => exact (by decide : 3 ≤ 4)
  | answered hdone hflag hattempts =>
    rw [Upstream.seen, hdone]
    rcases hattempts with ⟨-,hattempts⟩ | ⟨-,hattempts⟩ <;> simp [hattempts]

theorem UnderWay.attempts_le {u : Upstream} (hu : UnderWay conf c request u) : u.attempts.length ≤ 2 := by
  cases hu with
  | fresh => exact Nat.zero_le _
  | asked => exact (by decide : 1 ≤ 2)
  | turned => exact (by decide : 1 ≤ 2)
  | again => exact le_rfl
  | answered _ _ hattempts =>
    rcases hattempts with ⟨-,hattempts⟩ | ⟨-,hattempts⟩ <;> simp [hattempts]

theorem UnderWay.goes_on {f : Errand} (hr : Routable h c f.request f.reply) (hu : UnderWay conf c f.request f.up)
    (world : World) :
    f.up.stage = .done .response ∨
      (f.up.stage = .connect ∧ ∀ cached : Bool, ∃ v,
        step h conf f.up (.connect world [] (if cached then .cached else .ok)) = some v) ∨
      f.up.stage = .sent ∧ ∃ v, step h conf f.up (.read world (f.answer c)) = some v := by
  obtain ⟨request,reply,up⟩ := f
  simp only at hr hu ⊢
  cases hu with
  | fresh => exact .inr (.inl ⟨rfl,fun cached => ⟨_,step_fresh world cached⟩⟩)
  | asked cached => exact .inr (.inr ⟨rfl,_,rfl⟩)
  | turned cached hother => exact .inr (.inl ⟨rfl,fun again => ⟨_,step_turned hr cached again world⟩⟩)
  | again => exact .inr (.inr ⟨rfl,_,rfl⟩)
  | answered hdone => exact .inl hdone

theorem UnderWay.not_told {request : Request} {u : Upstream} (hu : UnderWay conf c request u)
    (howner : request.nodeIp = c.owner request.slot) : ¬ u.Told := by
  rintro (hflag | hlength)
  · cases hu with
    | fresh => cases hflag
    | asked => cases hflag
    | turned _ hother => exact hother howner
    | again => cases hflag
    | answered _ hok => cases hok.symm.trans hflag
  · cases hu with
    | fresh => exact absurd hlength (by simp [Upstream.start])
    | asked => exact absurd hlength (by simp [sentOnce])
    | turned _ hother => exact hother howner
    | again _ _ hother => exact hother howner
    | answered _ _ hattempts =>
      rcases hattempts with ⟨-,hattempts⟩ | ⟨hother,-⟩
      · rw [hattempts] at hlength
        exact absurd hlength (by simp)
      · exact hother howner

end Steps

section Conclusive

variable (proto : RedisProto) (backupServer : Bytes) (cost : Int) (printDouble : Double → Bytes)

theorem conclusive_of_decoded {request : Request} {reply : Bytes}
    (hwhole : (headerCheck .ok reply).response = some reply)
    (hdecode : ∀ stack scripts nodeIp nowTries, ∃ d, redisProtoDecode proto stack scripts none { request with
      nodeIp := nodeIp
      nowTries := nowTries
      movedAsk := .ok
      responseBuffer := reply } = .ok d ∧ d.rc = .ok) :
    Conclusive (yajlHandler proto backupServer cost printDouble) request reply := by
  refine ⟨hwhole,fun stack shared nodeIp nowTries => ?_⟩
  obtain ⟨d,hd,hrc⟩ := hdecode stack shared.scripts nodeIp nowTries
  have hbody : ∃ r, parseResponseBody (yajlHandler proto backupServer cost printDouble) d.request = (.ok,r) := by
    unfold parseResponseBody
    split
    · exact ⟨_,rfl⟩
    split
    · exact ⟨_,rfl⟩
    split <;> exact ⟨_,rfl⟩
  obtain ⟨r,hr⟩ := hbody
  exact ⟨_,processReply_answered (h := yajlHandler proto backupServer cost printDouble) hd hrc hr,rfl,rfl⟩

end Conclusive

end QkPack

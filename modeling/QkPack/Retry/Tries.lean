import QkPack.Retry.Asking

/-!
# The three counters of the tries

`hp->tries` tells `ReinitRequest` which try is the last, `r->us_tries` is compared with the limit of the
configuration, and `u->peer.tries` starts with the size of the peer table. They agree only if the table
is at least as large as the limit, and the limit is not beyond the fifty tries after which the module
leaves the choice to round robin.
-/

namespace QkPack
open Wire CString Resp

section Counters

variable {h : Handler} {conf : UpstreamConf} {u v : Upstream}

theorem upstreamNext_uncached (ft : FtType) (hcached : u.cached = false) (hpeer : u.hasPeer = true)
    (htries : conf.upstreamTries ≠ 0) (hnext : conf.nextUpstream ft = true) :
    upstreamNext conf ft u = { u with
      hasPeer := false
      peerTries := if conf.single then 0 else u.peerTries - 1
      usTries := u.usTries + 1
      stage := if u.usTries < conf.upstreamTries ∧ conf.single = false ∧ 1 < u.peerTries then .connect
        else .done (.gaveUp ft) } := by
  have hfree : freePeer conf u =
      { u with hasPeer := false, peerTries := if conf.single then 0 else u.peerTries - 1 } := if_pos hpeer
  simp only [upstreamNext, hfree, hcached, Bool.false_eq_true, false_and, and_false, if_false, hnext,
    or_false, if_neg htries, reduceCtorEq]
  by_cases hlimit : u.usTries < conf.upstreamTries
  · have hmore : ¬ (conf.upstreamTries ≠ 0 ∧ u.usTries ≥ conf.upstreamTries) := by omega
    rw [if_neg hmore]
    cases hsingle : conf.single with
    | true => simp [Upstream.finish]
    | false =>
      by_cases hleft : 1 < u.peerTries
      · have hne : ¬ u.peerTries - 1 = 0 := by omega
        simp [hlimit, hleft, hne]
      · have heq : u.peerTries - 1 = 0 := by omega
        simp [hleft, heq, Upstream.finish]
  · have hmore : conf.upstreamTries ≠ 0 ∧ u.usTries ≥ conf.upstreamTries := by omega
    rw [if_pos hmore]
    simp [hlimit, Upstream.finish]

end Counters

/-- The counters in a state with `hp->tries` peers chosen, of which `paid` is still in use. -/
structure Tally (conf : UpstreamConf) (limit paid : Nat) (u : Upstream) : Prop where
  fanOut : checkSubRequest u.request = false
  tries : u.request.tries = limit
  cached : u.cached = false
  hasPeer : u.hasPeer = decide (paid = 1)
  attempts : u.attempts.length = u.hpTries
  usTries : u.usTries + paid = u.hpTries + 1
  peerTries : u.peerTries + u.hpTries = conf.peersNumber + paid
  within : u.hpTries < limit + paid

/-- The last attempt of the request goes to the backup server, which it is sent to with an error. -/
def EndsAtBackup (h : Handler) (u : Upstream) : Prop :=
  u.attempts.getLast? = some (some h.backupServer) ∧ u.request.code = .timeout5xx

/-- The tally of a whole run: nothing is left of the limit when the request is given up. -/
def Tallied (h : Handler) (conf : UpstreamConf) (limit : Nat) (u : Upstream) : Prop :=
  match u.stage with
  | .connect => Tally conf limit 0 u
  | .connecting | .sent => Tally conf limit 1 u ∧ (u.hpTries = limit → EndsAtBackup h u)
  | .done (.gaveUp _) => u.attempts.length = limit ∧ EndsAtBackup h u
  | .done _ => True

theorem tallied_open_iff {h : Handler} {conf : UpstreamConf} {limit : Nat} {u : Upstream}
    (hstage : u.stage = .connecting ∨ u.stage = .sent) :
    Tallied h conf limit u ↔ Tally conf limit 1 u ∧ (u.hpTries = limit → EndsAtBackup h u) := by
  rcases hstage with hstage | hstage
  · rw [Tallied, hstage]
  · rw [Tallied, hstage]

def Event.uncached : Event → Bool
  | .connect _ _ .cached => false
  | _ => true

section Enough

variable {h : Handler} {conf : UpstreamConf} {limit : Nat} {u v : Upstream}
  (hlow : 2 ≤ limit) (hhigh : limit ≤ 51) (hconf : conf.upstreamTries = limit)
  (hnext : ∀ ft, conf.nextUpstream ft = true) (hsingle : conf.single = false)
  (hpeers : limit ≤ conf.peersNumber)

include hlow hconf hnext hsingle hpeers in
theorem Tally.next (ht : Tally conf limit 1 u) (hmarked : u.hpTries = limit → EndsAtBackup h u)
    (ft : FtType) : Tallied h conf limit (upstreamNext conf ft u) := by
  have hus := ht.usTries
  have hpeer := ht.peerTries
  have hwithin := ht.within
  rw [upstreamNext_uncached ft ht.cached ht.hasPeer (by omega) (hnext ft)]
  unfold Tallied
  by_cases hleft : u.usTries < conf.upstreamTries ∧ conf.single = false ∧ 1 < u.peerTries
  · simp only [if_pos hleft]
    refine ⟨ht.fanOut,ht.tries,ht.cached,rfl,ht.attempts,by simp only; omega,?_,by simp only; omega⟩
    simp only [hsingle, Bool.false_eq_true, if_false]
    omega
  · simp only [if_neg hleft]
    have hall : u.hpTries = limit := by
      by_contra hne
      exact hleft ⟨by omega,hsingle,by omega⟩
    exact ⟨ht.attempts.trans hall,hmarked hall⟩

include hlow hhigh in
theorem Tally.getPeer (ht : Tally conf limit 0 u) (world : World) (randomIp : Bytes) :
    ∃ v, getPeer h world randomIp u = some v ∧ v.stage = u.stage ∧ Tally conf limit 1 v ∧
      (v.hpTries = limit → EndsAtBackup h v) := by
  have hus := ht.usTries
  have hpeer := ht.peerTries
  have hwithin := ht.within
  obtain ⟨v,hv,hchosen⟩ := getPeer_chosen (h := h) world randomIp ht.fanOut
  obtain ⟨hhp,hattempts⟩ := hchosen.counted (by omega)
  refine ⟨v,hv,hchosen.stage,?_,?_⟩
  · refine ⟨hchosen.fanOut.trans ht.fanOut,hchosen.tries.trans ht.tries,hchosen.cached,
      hchosen.hasPeer,?_,?_,?_,?_⟩
    · rw [hattempts, List.length_append, ht.attempts, hhp]
      rfl
    · rw [hchosen.usTries]
      omega
    · rw [hchosen.peerTries]
      omega
    · omega
  · intro hall
    have htries := ht.tries
    have hlast : u.lastTry = true := (lastTry_iff (by omega) (by omega) (by omega)).mpr (by omega)
    obtain ⟨hip,hcode⟩ := hchosen.marked (by omega) (by omega) hlast
    refine ⟨?_,hcode⟩
    rw [hattempts, hip]
    exact List.getLast?_concat ..

theorem Tally.connected {result : ConnectResult} (ht : Tally conf limit 1 u)
    (hmarked : u.hpTries = limit → EndsAtBackup h u) (hresult : result ≠ .cached) :
    Tallied h conf limit (connected result u) := by
  have hcached : decide (result = .cached) = false := decide_eq_false hresult
  rcases connected_cases (u := u) result with hdone | ⟨flag,bufs,hconnected⟩
  · rw [hdone]
    exact trivial
  · rw [hconnected]
    split
    · exact ⟨⟨ht.1,ht.2,hcached,ht.4,ht.5,ht.6,ht.7,ht.8⟩,hmarked⟩
    · exact ⟨⟨ht.1,ht.2,hcached,ht.4,ht.5,ht.6,ht.7,ht.8⟩,hmarked⟩

include hlow hconf hnext hsingle hpeers

theorem Tally.headerStep {world : World} {bytes : Bytes} (ht : Tally conf limit 1 u)
    (hmarked : u.hpTries = limit → EndsAtBackup h u) (hsent : u.stage = .sent)
    (hread : HeaderStep h conf world bytes u v) : Tallied h conf limit v := by
  have hbuffer : Tally conf limit 1 { u with buffer := u.buffer ++ bytes } :=
    ⟨ht.1,ht.2,ht.3,ht.4,ht.5,ht.6,ht.7,ht.8⟩
  cases hread with
  | waits =>
    rw [tallied_open_iff]
    · exact ⟨hbuffer,hmarked⟩
    · exact .inr hsent
  | malformed => exact Tally.next hlow hconf hnext hsingle hpeers hbuffer hmarked .invalidHeader
  | broken houtcome => rcases houtcome with rfl | rfl <;> exact trivial
  | redirected hreplied hrc =>
    obtain ⟨response,-,hp⟩ := hreplied
    obtain ⟨hcode,-,-,hrest⟩ := processReply_redirected hp hrc
    refine Tally.next hlow hconf hnext hsingle hpeers ?_ ?_ .invalidHeader
    · refine ⟨?_,?_,ht.cached,ht.hasPeer,ht.attempts,ht.usTries,ht.peerTries,ht.within⟩
      · simp only
        rw [hrest]
        exact ht.fanOut
      · simp only
        rw [hrest]
        exact ht.tries
    · intro hall
      exact absurd ((hmarked hall).2.symm.trans hcode) nofun
  | answered _ _ => exact trivial
  | refused _ => exact trivial

include hhigh

theorem tallied_step {e : Event} (ht : Tallied h conf limit u) (he : e.uncached = true)
    (hstep : step h conf u e = some v) : Tallied h conf limit v := by
  cases step_upstreamStep hstep with
  | noPeer _ => exact trivial
  | @connect world randomIp _ w _ hstage hpeer hresult =>
    simp only [Tallied, hstage] at ht
    obtain ⟨w',hw,-,hwt,hwm⟩ := Tally.getPeer (h := h) hlow hhigh ht world randomIp
    cases hpeer.symm.trans hw
    cases hresult with
    | error => exact trivial
    | busy hmany =>
      have hwithin := ht.within
      omega
    | declined => exact Tally.next hlow hconf hnext hsingle hpeers hwt hwm .error
    | connected hresult =>
      rcases hresult with rfl | rfl | rfl
      · exact Tally.connected hwt hwm nofun
      · cases he
      · exact Tally.connected hwt hwm nofun
  | established hstage =>
    obtain ⟨ht,hmarked⟩ := (tallied_open_iff (.inl hstage)).mp ht
    exact ⟨⟨ht.1,ht.2,ht.3,ht.4,ht.5,ht.6,ht.7,ht.8⟩,hmarked⟩
  | failed hstage _ =>
    obtain ⟨ht,hmarked⟩ := (tallied_open_iff hstage).mp ht
    exact Tally.next hlow hconf hnext hsingle hpeers ht hmarked _
  | read hstage hread =>
    obtain ⟨ht,hmarked⟩ := (tallied_open_iff (.inr hstage)).mp ht
    exact Tally.headerStep hlow hconf hnext hsingle hpeers ht hmarked hstage hread

end Enough

def timeoutRound : List Event := [.connect emptyWorld [] .again,.timeout]

/-- Between two attempts, `k` of them made and none of them connected. -/
structure Idle (conf : UpstreamConf) (k : Nat) (u : Upstream) : Prop where
  stage : u.stage = .connect
  fanOut : checkSubRequest u.request = false
  requestSent : u.requestSent = false
  hpTries : u.hpTries = min k 51
  attempts : u.attempts.length = k
  usTries : u.usTries = k + 1
  peerTries : u.peerTries = conf.peersNumber - k

/-- Another attempt is left after `k` of them. -/
def UpstreamConf.allows (conf : UpstreamConf) (k : Nat) : Prop :=
  k < conf.upstreamTries ∧ conf.single = false ∧ k < conf.peersNumber

section TooFew

variable {h : Handler} {conf : UpstreamConf} {u : Upstream} (hconf : conf.upstreamTries ≠ 0)
  (hnext : ∀ ft, conf.nextUpstream ft = true)
include hconf hnext

theorem Idle.round {k : Nat} (hi : Idle conf k u) :
    ∃ v, Machine.run (step h conf) u timeoutRound = some v ∧ v.attempts.length = k + 1 ∧
      (50 < k → v.attempts.getLast? = some none) ∧
      (conf.allows (k + 1) → Idle conf (k + 1) v) ∧
      (¬ conf.allows (k + 1) → v.stage = .done (.gaveUp .timeout)) := by
  have hhp := hi.hpTries
  have hus := hi.usTries
  have hpeer := hi.peerTries
  obtain ⟨w,hw,hchosen⟩ := getPeer_chosen (h := h) emptyWorld [] hi.fanOut
  have hsent : w.requestSent = false := hchosen.requestSent.trans hi.requestSent
  have hconnect : step h conf u (.connect emptyWorld [] .again) =
      some { w with cached := false, requestSent := false, buffer := [], stage := .connecting } := by
    simp [step, hi.stage, upstreamConnect, hw, connected, hsent]
  have hlength : w.attempts.length = k + 1 := by
    by_cases hfew : u.hpTries ≤ 50
    · rw [(hchosen.counted hfew).2, List.length_append, hi.attempts]
      rfl
    · rw [(hchosen.roundRobin (by omega)).2, List.length_append, hi.attempts]
      rfl
  have hcount : w.hpTries = min (k + 1) 51 := by
    by_cases hfew : u.hpTries ≤ 50
    · rw [(hchosen.counted hfew).1]
      omega
    · rw [(hchosen.roundRobin (by omega)).1]
      omega
  refine ⟨upstreamNext conf .timeout
    { w with cached := false, requestSent := false, buffer := [], stage := .connecting },?_,?_⟩
  · rw [timeoutRound, Machine.run, hconnect]
    rfl
  · have hends := upstreamNext_uncached .timeout (u := { w with
        cached := false, requestSent := false, buffer := [], stage := .connecting }) rfl hchosen.hasPeer
      hconf (hnext .timeout)
    rw [hends]
    simp only [hchosen.usTries, hchosen.peerTries]
    refine ⟨hlength,?_,?_,?_⟩
    · intro hmany
      rw [(hchosen.roundRobin (by omega)).2]
      exact List.getLast?_concat ..
    · rintro ⟨hlimit,hsingle,hleft⟩
      have hpeers : u.usTries < conf.upstreamTries ∧ conf.single = false ∧ 1 < u.peerTries :=
        ⟨by omega,hsingle,by omega⟩
      refine ⟨if_pos hpeers,hchosen.fanOut.trans hi.fanOut,rfl,hcount,hlength,by simp only; omega,?_⟩
      simp only [hsingle, Bool.false_eq_true, if_false]
      omega
    · intro hnone
      refine if_neg ?_
      rintro ⟨hlimit,hsingle,hleft⟩
      exact hnone ⟨by omega,hsingle,by omega⟩

theorem idle_rounds {request : Request} (hsub : checkSubRequest request = false) {k : Nat}
    (hallows : ∀ j, 0 < j → j ≤ k → conf.allows j) :
    ∃ v, Machine.run (step h conf) (Upstream.start conf request) (List.replicate k timeoutRound).flatten =
      some v ∧ Idle conf k v := by
  induction k with
  | zero => exact ⟨_,rfl,rfl,hsub,rfl,rfl,rfl,rfl,rfl⟩
  | succ k ih =>
    obtain ⟨u,hrun,hidle⟩ := ih fun j hpos hle => hallows j hpos (Nat.le_succ_of_le hle)
    obtain ⟨v,hround,-,-,hmore,-⟩ := hidle.round (h := h) hconf hnext
    refine ⟨v,?_,hmore (hallows (k + 1) (Nat.succ_pos k) le_rfl)⟩
    rw [List.replicate_succ', List.flatten_append, Machine.run_append hrun]
    simpa using hround

/-- The run in which no attempt connects is given up after the first number of attempts that is not
exceeded. -/
theorem gives_up_after {request : Request} (hsub : checkSubRequest request = false) {k : Nat}
    (hallows : ∀ j, 0 < j → j ≤ k → conf.allows j) (hlast : ¬ conf.allows (k + 1)) :
    ∃ es v, (∀ e ∈ es, e.uncached = true) ∧
      Machine.run (step h conf) (Upstream.start conf request) es = some v ∧
        v.stage = .done (.gaveUp .timeout) ∧ v.attempts.length = k + 1 ∧
          (50 < k → v.attempts.getLast? = some none) := by
  obtain ⟨u,hrun,hidle⟩ := idle_rounds (h := h) hconf hnext hsub hallows
  obtain ⟨v,hround,hlength,hrobin,-,hdone⟩ := hidle.round (h := h) hconf hnext
  refine ⟨(List.replicate k timeoutRound).flatten ++ timeoutRound,v,?_,?_,hdone hlast,hlength,hrobin⟩
  · have hround : ∀ e ∈ timeoutRound, e.uncached = true := by simp [timeoutRound, Event.uncached]
    intro e he
    rcases List.mem_append.mp he with he | he
    · obtain ⟨l,hl,he⟩ := List.mem_flatten.mp he
      rw [List.eq_of_mem_replicate hl] at he
      exact hround e he
    · exact hround e he
  · rw [Machine.run_append hrun]
    exact hround

end TooFew

/-- The events of a first attempt up to the writing of the request. -/
inductive Opens : List Event → Prop
  | atOnce (world : World) (randomIp : Bytes) : Opens [.connect world randomIp .ok]
  | later (world : World) (randomIp : Bytes) : Opens [.connect world randomIp .again,.established]

/-- A request is given up only after all its tries, the last of them made at the backup server. -/
def Exhausts (h : Handler) (conf : UpstreamConf) (request : Request) : Prop :=
  ∀ es u ft, (∀ e ∈ es, e.uncached = true) →
    Machine.run (step h conf) (Upstream.start conf request) es = some u → u.stage = .done (.gaveUp ft) →
      u.attempts.length = request.tries ∧ EndsAtBackup h u

/-- When the first attempt is answered with `MOVED`, the second is made at the node named. -/
def FollowsMoved (h : Handler) (conf : UpstreamConf) (request : Request) : Prop :=
  ∀ opening world world' reply node randomIp result, Opens opening → MovedTo reply node →
    result ≠ .busy → ∃ u, Machine.run (step h conf) (Upstream.start conf request)
      (opening ++ [.read world reply,.connect world' randomIp result]) = some u ∧
        u.attempts = [some request.nodeIp,some node]

section Follows

variable {h : Handler} {conf : UpstreamConf} {request : Request} {u v : Upstream}

/-- The first attempt, written and not answered yet. -/
structure FirstSent (conf : UpstreamConf) (request : Request) (u : Upstream) : Prop where
  stage : u.stage = .sent
  kept : u.request = request
  flag : u.movedAsk = .ok
  buffer : u.buffer = []
  cached : u.cached = false
  hasPeer : u.hasPeer = true
  hpTries : u.hpTries = 1
  usTries : u.usTries = 1
  peerTries : u.peerTries = conf.peersNumber
  attempts : u.attempts = [some request.nodeIp]

theorem Opens.firstSent {opening : List Event} (hopens : Opens opening) :
    ∃ u, Machine.run (step h conf) (Upstream.start conf request) opening = some u ∧
      FirstSent conf request u := by
  cases hopens with
  | atOnce world randomIp => exact ⟨_,rfl,rfl,rfl,rfl,rfl,rfl,rfl,rfl,rfl,rfl,rfl⟩
  | later world randomIp => exact ⟨_,rfl,rfl,rfl,rfl,rfl,rfl,rfl,rfl,rfl,rfl,rfl⟩

theorem FirstSent.moved (world : World) {reply node : Bytes} (hu : FirstSent conf request u)
    (hcode : request.code = .ok) (hlimit : 1 < conf.upstreamTries) (hsingle : conf.single = false)
    (hpeers : 1 < conf.peersNumber) (hnext : ∀ ft, conf.nextUpstream ft = true)
    (hm : MovedTo reply node) :
    ∃ v, step h conf u (.read world reply) = some v ∧ v.stage = .connect ∧ v.movedAsk = .moved ∧
      v.upstreamIp = node ∧ v.hpTries = 1 ∧ v.attempts = u.attempts ∧
        v.request.tries = request.tries ∧ checkSubRequest v.request = checkSubRequest request := by
  obtain ⟨rest,hrest⟩ := hm.cons
  have hcheck : (headerCheck .ok reply).response = some reply := by
    have hframe : decodeFrame reply = ⟨.ok,1⟩ := by
      rw [decodeFrame_eq, hrest]
      exact frameBehind_line [] _ (.inl rfl)
    have hframe' : ngxRedisProtoDecode reply 0 reply.length = ⟨.ok,1⟩ := hframe
    simp [headerCheck, hframe']
  obtain ⟨p,hp,hrc,hrequest⟩ := processReply_moved h world.stack world.shared world.parent
    { request with responseBuffer := reply, movedAsk := .ok } hcode rfl hm
  refine ⟨upstreamNext conf .invalidHeader { u with
    buffer := reply, request := p.request, upstreamIp := p.request.nodeIp
    movedAsk := p.request.movedAsk },?_,?_⟩
  · simp only [step, hu.stage, processHeader, hu.buffer, List.nil_append, hu.flag, hcheck,
      processResponse, hu.kept, hp, hrc]
  · have hnexts := upstreamNext_uncached .invalidHeader (u := { u with
        buffer := reply, request := p.request, upstreamIp := p.request.nodeIp
        movedAsk := p.request.movedAsk }) hu.cached hu.hasPeer (by omega) (hnext .invalidHeader)
    have hus := hu.usTries
    have hpeer := hu.peerTries
    have hleft : u.usTries < conf.upstreamTries ∧ conf.single = false ∧ 1 < u.peerTries :=
      ⟨by omega,hsingle,by omega⟩
    rw [hnexts, hrequest]
    exact ⟨if_pos hleft,rfl,rfl,hu.hpTries,rfl,rfl,rfl⟩

variable (conf) in
theorem upstreamConnect_attempts {world : World} {randomIp : Bytes} {result : ConnectResult}
    (hresult : result ≠ .busy) (hv : getPeer h world randomIp u = some v) :
    ∃ w, upstreamConnect h conf world randomIp result u = some w ∧ w.attempts = v.attempts := by
  have hconnected : (connected result v).attempts = v.attempts := by
    rcases connected_cases (u := v) result with hdone | ⟨flag,bufs,hconnected⟩
    · rw [hdone]
      rfl
    · rw [hconnected]
      split <;> rfl
  rw [upstreamConnect, hv]
  cases result with
  | ok => exact ⟨_,rfl,hconnected⟩
  | cached => exact ⟨_,rfl,hconnected⟩
  | again => exact ⟨_,rfl,hconnected⟩
  | declined =>
    obtain ⟨hasPeer,peerTries,usTries,stage,hnext,-⟩ := upstreamNext_cases conf .error v
    exact ⟨_,rfl,by rw [hnext]⟩
  | busy => exact absurd rfl hresult
  | error => exact ⟨_,rfl,rfl⟩

theorem follows_moved (hsub : checkSubRequest request = false) (hcode : request.code = .ok)
    (hlow : 3 ≤ request.tries) (hhigh : request.tries < 2 ^ 32)
    (hconf : conf.upstreamTries = request.tries) (hnext : ∀ ft, conf.nextUpstream ft = true)
    (hsingle : conf.single = false) (hpeers : 1 < conf.peersNumber) : FollowsMoved h conf request := by
  intro opening world world' reply node randomIp result hopens hm hresult
  obtain ⟨u,hrun,hu⟩ := hopens.firstSent (h := h)
  obtain ⟨v,hread,hstage,hflag,hip,hhp,hattempts,htries,hfan⟩ :=
    hu.moved (h := h) world hcode (by omega) hsingle hpeers hnext hm
  obtain ⟨w,hw,hchosen⟩ := getPeer_chosen (h := h) world' randomIp (hfan.trans hsub)
  obtain ⟨t,ht,hsame⟩ := upstreamConnect_attempts conf hresult hw
  have hnotLast : v.lastTry = false := by
    rw [Bool.eq_false_iff, ne_eq, lastTry_iff (by omega) (by omega) (by omega)]
    omega
  have hflag' : v.movedAsk ≠ .ok := by
    rw [hflag]
    nofun
  refine ⟨t,?_,?_⟩
  · rw [Machine.run_append hrun, Machine.run, hread, Option.bind_some, Machine.run]
    simp only [step, hstage, ht]
    rfl
  · rw [hsame, (hchosen.counted (by omega)).2, hchosen.followed (by omega) (by omega) hnotLast hflag',
      hip, hattempts, hu.attempts]
    rfl

end Follows

/-- The limit alone bounds the attempts exactly if the peer table is not single and not smaller than the
limit, and the limit is at most the number of tries that the module counts. -/
theorem tries_alone_bound_iff {h : Handler} {conf : UpstreamConf} {request : Request}
    (hc : Created request) (hlow : 2 ≤ request.tries) (hhigh : request.tries < 2 ^ 32)
    (hconf : conf.upstreamTries = request.tries) (hnext : ∀ ft, conf.nextUpstream ft = true) :
    Exhausts h conf request ∧
        (3 ≤ request.tries → request.code = .ok → FollowsMoved h conf request) ↔
      conf.single = false ∧ request.tries ≤ conf.peersNumber ∧ request.tries ≤ 51 := by
  constructor
  · rintro ⟨hexhausts,-⟩
    have hnonzero : conf.upstreamTries ≠ 0 := by omega
    -- a run without connections shows the number of attempts
    have hcount {k : Nat} (hallows : ∀ j, 0 < j → j ≤ k → conf.allows j)
        (hlast : ¬ conf.allows (k + 1)) : k + 1 = request.tries ∧ k ≤ 50 := by
      obtain ⟨es,v,hes,hrun,hdone,hlength,hrobin⟩ :=
        gives_up_after (h := h) hnonzero hnext hc.single hallows hlast
      obtain ⟨htries,hbackup,-⟩ := hexhausts es v .timeout hes hrun hdone
      refine ⟨hlength.symm.trans htries,?_⟩
      by_contra hmany
      cases (hrobin (by omega)).symm.trans hbackup
    have hfirst : conf.allows 1 := by
      by_contra hnone
      have := hcount (k := 0) (fun j hpos hle => absurd hle (by omega)) hnone
      omega
    obtain ⟨-,hsingle,hpeers⟩ := hfirst
    have hmin := hcount (k := min request.tries conf.peersNumber - 1)
      (fun j hpos hle => ⟨by omega,hsingle,by omega⟩) (fun hmore => by
        have := hmore.1
        have := hmore.2.2
        omega)
    exact ⟨hsingle,by omega,by omega⟩
  · rintro ⟨hsingle,hpeers,hfew⟩
    refine ⟨?_,fun hthree hcode => follows_moved hc.single hcode hthree hhigh hconf hnext hsingle (by omega)⟩
    intro es u ft hes hrun hdone
    have hstart : Tallied h conf request.tries (Upstream.start conf request) :=
      ⟨hc.single,rfl,rfl,rfl,rfl,rfl,rfl,by change 0 < _; omega⟩
    have halong : Machine.Along (step h conf) (fun _ e => e.uncached = true)
        (Upstream.start conf request) es := Machine.along_of_forall hes
    have hend := Machine.invariant_run (tallied_step hlow hfew hconf hnext hsingle hpeers) hstart
      halong hrun
    simpa only [Tallied, hdone] using hend

/-- Three tries and three peers. -/
theorem tries_alone_bound_iff_three :
    Exhausts plainHandler (tableConf 3 3) (getRequest 3) ∧
      FollowsMoved plainHandler (tableConf 3 3) (getRequest 3) := by
  have hbound := (tries_alone_bound_iff (h := plainHandler) (created_getRequest 3) (by decide)
    (by decide) (show (tableConf 3 3).upstreamTries = _ from rfl) fun _ => rfl).mpr (by decide)
  exact ⟨hbound.1,hbound.2 (by decide) rfl⟩

def singleConf (tries : Nat) : UpstreamConf := ⟨tries,fun _ => true,true,true,1⟩

/-- With the default limit and a single peer, the first `MOVED` ends the request, with five tries left. -/
theorem moved_not_followed :
    Created (getRequest 6) ∧
      (Machine.run (step plainHandler (singleConf 6)) (Upstream.start (singleConf 6) (getRequest 6))
          [.connect emptyWorld [] .ok,.read emptyWorld (text "-MOVED 1 10.0.0.2:7000" ++ crlf)]).map
            (fun u => (u.stage,u.attempts)) =
        some (.done (.gaveUp .invalidHeader),[some (text "10.0.0.1:7000")]) ∧
      ¬ Exhausts plainHandler (singleConf 6) (getRequest 6) := by
  have hgivesUp : (Machine.run (step plainHandler (singleConf 6))
      (Upstream.start (singleConf 6) (getRequest 6))
        [.connect emptyWorld [] .ok,.read emptyWorld (text "-MOVED 1 10.0.0.2:7000" ++ crlf)]).map
          (fun u => (u.stage,u.attempts)) =
      some (.done (.gaveUp .invalidHeader),[some (text "10.0.0.1:7000")]) := by
    decide +kernel
  refine ⟨created_getRequest 6,hgivesUp,?_⟩
  intro hexhausts
  obtain ⟨u,hrun,hu⟩ := Option.map_eq_some_iff.mp hgivesUp
  obtain ⟨hstage,hattempts⟩ := Prod.mk.inj hu
  obtain ⟨hlength,-⟩ := hexhausts _ u .invalidHeader (by simp [Event.uncached]) hrun hstage
  rw [hattempts] at hlength
  cases hlength

end QkPack

import QkPack.Retry.Asking

/-!
# One connection of the pool

A connection to a node is used by one request after another. The node answers every command frame with
one reply, in order; the bytes arrive in any pieces. `ngx_http_upstream_free_keepalive_peer` keeps the
connection of every request that has ended with a response; in any other case it is closed.
-/

namespace QkPack
open Wire CString Resp

/-- Idle in the pool, used by the request `u` whose command the node answers with `own`, or closed. -/
inductive Mode where
  | pooled
  | busy (u : Upstream) (own : Reply)
  | closed

structure Conn where
  mode : Mode
  /-- The bytes of replies to commands already sent that have not been read. -/
  flight : Bytes
  /-- The bytes given to `ProcessBody`, each with the reply to the request's own command. -/
  handed : List (Reply × Bytes)

def Conn.fresh : Conn := ⟨.pooled,[],[]⟩

/-- What happens on a connection. A request takes it after the events `es`, the last of which gives it the
connection; `close` stands for timeouts, errors, and for bytes that arrive while it is idle. -/
inductive ConnEvent where
  | take (request : Request) (es : List Event) (asking own : Reply)
  | read (world : World) (n : Nat)
  | close

/-- The node answers the frame of `ASKING`, if it is there, and the command. -/
def answers (bufs : Bytes) (asking own : Reply) : Bytes :=
  if askingFrame.isPrefixOf bufs then encode asking ++ encode own else encode own

/-- `ngx_http_upstream_next` and every error close the connection. -/
def modeAfter (u : Upstream) (own : Reply) : Mode :=
  match u.stage with
  | .sent => .busy u own
  | .done .response => .pooled
  | _ => .closed

section Steps

variable (h : Handler) (conf : UpstreamConf)

def connStep (c : Conn) : ConnEvent → Option Conn
  | .take request es asking own =>
    match c.mode, Machine.run (step h conf) (Upstream.start conf request) es with
    | .pooled, some u =>
      if u.stage = .sent ∧ u.buffer = [] then
        some { c with mode := .busy u own, flight := c.flight ++ answers u.requestBufs asking own }
      else none
    | _, _ => none
  | .read world n =>
    match c.mode with
    | .busy u own =>
      if 0 < n ∧ n ≤ c.flight.length then
        some {
          mode := modeAfter (processHeader h conf world (c.flight.take n) u) own
          flight := c.flight.drop n
          handed := c.handed ++ ((headerCheck u.movedAsk (u.buffer ++ c.flight.take n)).response.map
            fun bytes => (own,bytes)).toList }
      else none
    | _ => none
  | .close => some { c with mode := .closed }

end Steps

/-- What has arrived of a reply, `q` bytes, is waited for within the buffer. -/
def HeldBack (r : Reply) (q : Nat) : Prop :=
  replyWaits r q ∧ ∀ es, r = .array es → NoWholeNull es q

/-- The same behind the answer to `ASKING` while it is awaited. -/
def HeldBehind (flag : MovedAsk) (r : Reply) (n : Nat) : Prop :=
  if flag = .askingEnd then 5 < n ∧ HeldBack r (n - 5) else HeldBack r n

/-- Requests do not reach their last try while the answer to `ASKING` is awaited, nodes answer `ASKING`
with `+OK`, replies are cut only where the framing check waits, and fit its counters. -/
def CutsHeld (h : Handler) (conf : UpstreamConf) (c : Conn) : ConnEvent → Prop
  | .take request es asking own =>
    Machine.Along (step h conf) KeepsAsking (Upstream.start conf request) es ∧
      encode asking = askingOk ∧ (encode own).length ≤ 2 ^ 29
  | .read _ n => ∀ u own, c.mode = .busy u own → n < c.flight.length →
      HeldBehind u.movedAsk own (u.buffer.length + n)
  | .close => True

def ConnEvent.created : ConnEvent → Prop
  | .take request _ _ _ => Created request
  | _ => True

/-- Where the bytes of the request's own reply are. -/
structure OwnReply (u : Upstream) (own : Reply) (flight : Bytes) : Prop where
  stage : u.stage = .sent
  size : (encode own).length ≤ 2 ^ 29
  stream : u.buffer ++ flight = (if u.movedAsk = .askingEnd then askingOk else []) ++ encode own

/-- What holds of a connection whose cuts are held: every request has got its own reply, and nothing is
outstanding in the pool. -/
structure Uncrossed (c : Conn) : Prop where
  handed : ∀ entry ∈ c.handed, entry.2 = encode entry.1
  pooled : c.mode = .pooled → c.flight = []
  busy : ∀ u own, c.mode = .busy u own → OwnReply u own c.flight

section Header

variable {flag : MovedAsk} {r : Reply} {buffer bytes : Bytes}

theorem headerCheck_response_eq (hresp : (headerCheck flag buffer).response = some bytes) :
    bytes = buffer.drop (if flag = .askingEnd then 5 else 0) := by
  unfold headerCheck at hresp
  split at hresp
  · cases hresp
  · obtain ⟨-,hdrop⟩ := Option.ite_none_right_eq_some.mp hresp
    exact (Option.some.inj hdrop).symm

theorem headerCheck_plain_response (hflag : flag ≠ .askingEnd)
    (hagain : (decodeFrame buffer).rc = .again) : (headerCheck flag buffer).response = none := by
  have hagain' : (ngxRedisProtoDecode buffer 0 buffer.length).rc = .again := hagain
  simp only [headerCheck, if_neg hflag]
  split
  · rfl
  · simp [hagain']

theorem frameBehind_held {q : Nat} (hsize : (encode r).length ≤ 2 ^ 29) (hq : 0 < q)
    (hq' : q < (encode r).length) (hheld : HeldBack r q) (skip : Bytes) (hskip : skip.length ≤ 5) :
    (frameBehind skip ((encode r).take q)).rc = .again :=
  ((waitsWithin_reply_iff skip (by omega) hq hq' hheld.2).mpr hheld.1).1

theorem headerCheck_held {n : Nat} (hsize : (encode r).length ≤ 2 ^ 29) (hn : 0 < n)
    (hn' : n < ((if flag = .askingEnd then askingOk else []) ++ encode r).length)
    (hheld : HeldBehind flag r n) :
    (headerCheck flag (((if flag = .askingEnd then askingOk else []) ++ encode r).take n)).response =
      none := by
  unfold HeldBehind at hheld
  by_cases hasking : flag = .askingEnd
  · have hfive : askingOk.length = 5 := rfl
    subst hasking
    simp only [if_true, List.length_append, hfive] at hn' hheld ⊢
    obtain ⟨hlong,hheld⟩ := hheld
    have hagain := frameBehind_held hsize (by omega) (by omega) hheld askingOk hfive.le
    rw [List.take_append, hfive, List.take_of_length_le (by omega), headerCheck_asking, if_neg]
    rw [hagain]
    nofun
  · simp only [if_neg hasking, List.nil_append] at hn' hheld ⊢
    refine headerCheck_plain_response hasking ?_
    exact frameBehind_held hsize hn hn' hheld [] (Nat.zero_le 5)

end Header

section Reads

variable {conf : UpstreamConf} {u : Upstream} {own : Reply} {flight : Bytes} {n : Nat}

theorem OwnReply.handed (ho : OwnReply u own flight) (bytes : Bytes) (hn : 0 < n)
    (hheld : n < flight.length → HeldBehind u.movedAsk own (u.buffer.length + n))
    (hresp : (headerCheck u.movedAsk (u.buffer ++ flight.take n)).response = some bytes) :
    flight.drop n = [] ∧ bytes = encode own := by
  have hall : ¬ n < flight.length := by
    intro hcut
    have htake : u.buffer ++ flight.take n =
        (u.buffer ++ flight).take (u.buffer.length + n) := (List.take_length_add_append n).symm
    have hlength : u.buffer.length + n < (u.buffer ++ flight).length := by
      rw [List.length_append]
      omega
    rw [ho.stream] at htake hlength
    rw [htake, headerCheck_held ho.size (by omega) hlength (hheld hcut)] at hresp
    cases hresp
  have hwhole : flight.length ≤ n := not_lt.mp hall
  refine ⟨List.drop_of_length_le hwhole,?_⟩
  rw [headerCheck_response_eq hresp, List.take_of_length_le hwhole, ho.stream]
  split <;> rfl

theorem modeAfter_upstreamNext (ft : FtType) : modeAfter (upstreamNext conf ft u) own = .closed := by
  obtain ⟨hasPeer,peerTries,usTries,stage,hnext,hstage⟩ := upstreamNext_cases conf ft u
  rw [hnext]
  rcases hstage with rfl | rfl <;> rfl

theorem modeAfter_processHeader (h : Handler) (conf : UpstreamConf) (world : World) (bytes : Bytes)
    (own : Reply) (hsent : u.stage = .sent) :
    modeAfter (processHeader h conf world bytes u) own = .closed ∨
      modeAfter (processHeader h conf world bytes u) own =
          .busy { u with buffer := u.buffer ++ bytes } own ∨
        modeAfter (processHeader h conf world bytes u) own = .pooled ∧
          ∃ response, (headerCheck u.movedAsk (u.buffer ++ bytes)).response = some response := by
  have hread := processHeader_headerStep h conf world bytes u
  generalize processHeader h conf world bytes u = v at hread
  cases hread with
  | waits =>
    right
    left
    simp only [modeAfter, hsent]
  | malformed => exact .inl (modeAfter_upstreamNext _)
  | broken houtcome => rcases houtcome with rfl | rfl <;> exact .inl rfl
  | redirected _ _ => exact .inl (modeAfter_upstreamNext _)
  | answered hreplied _ =>
    obtain ⟨response,hresponse,-⟩ := hreplied
    exact .inr (.inr ⟨rfl,response,hresponse⟩)
  | refused _ => exact .inl rfl

end Reads

section Runs

variable {h : Handler} {conf : UpstreamConf} {c c' : Conn} {e : ConnEvent}

/-- A request that has kept its flag and its bytes together is answered with what its flag announces. -/
theorem answers_of_paired {request : Request} (hc : Created request) {u : Upstream}
    (hpaired : FramePaired request.protoStr u.copies) {asking own : Reply}
    (hasking : encode asking = askingOk) :
    answers u.requestBufs asking own =
      (if u.movedAsk = .askingEnd then askingOk else []) ++ encode own := by
  have hbufs : u.requestBufs =
      if u.movedAsk = .askingEnd then askingFrame ++ request.protoStr else request.protoStr := hpaired
  unfold answers
  rw [hbufs]
  split
  · rw [if_pos (List.isPrefixOf_iff_prefix.mpr (List.prefix_append _ _)), hasking]
  · rw [if_neg, List.nil_append]
    rw [List.isPrefixOf_iff_prefix]
    exact hc.not_asking

theorem connStep_take {request : Request} {es : List Event} {asking own : Reply}
    (hstep : connStep h conf c (.take request es asking own) = some c') :
    c.mode = .pooled ∧ ∃ u, Machine.run (step h conf) (Upstream.start conf request) es = some u ∧
      u.stage = .sent ∧ u.buffer = [] ∧
        c' = { c with mode := .busy u own, flight := c.flight ++ answers u.requestBufs asking own } := by
  simp only [connStep] at hstep
  split at hstep
  · rename_i u hmode hrun
    split at hstep
    · rename_i hready
      cases hstep
      exact ⟨hmode,u,hrun,hready.1,hready.2,rfl⟩
    · cases hstep
  · cases hstep

theorem uncrossed_take {request : Request} {es : List Event} {asking own : Reply} (hu : Uncrossed c)
    (hc : Created request) (hcuts : CutsHeld h conf c (.take request es asking own))
    (hstep : connStep h conf c (.take request es asking own) = some c') : Uncrossed c' := by
  obtain ⟨halong,hasking,hsize⟩ := hcuts
  obtain ⟨hmode,u,hrun,hsent,hbuffer,rfl⟩ := connStep_take hstep
  have hstart : RunPaired request.protoStr (Upstream.start conf request) :=
    ⟨runSound_start hc,fun _ => rfl⟩
  have hpaired := (Machine.invariant_run runPaired_step hstart halong hrun).2 (not_isDone_of_sent hsent)
  refine ⟨hu.handed,nofun,?_⟩
  intro v r hbusy
  cases hbusy
  refine ⟨hsent,hsize,?_⟩
  rw [hbuffer, hu.pooled hmode]
  exact answers_of_paired hc hpaired hasking

theorem uncrossed_read {world : World} {n : Nat} (hu : Uncrossed c)
    (hcuts : CutsHeld h conf c (.read world n))
    (hstep : connStep h conf c (.read world n) = some c') : Uncrossed c' := by
  simp only [connStep] at hstep
  split at hstep
  · rename_i u own hmode
    split at hstep
    · rename_i hn
      cases hstep
      have ho := hu.busy u own hmode
      have hhanded := fun bytes => ho.handed bytes hn.1 (hcuts u own hmode)
      have hstream : u.buffer ++ c.flight.take n ++ c.flight.drop n = u.buffer ++ c.flight := by
        rw [List.append_assoc, List.take_append_drop]
      refine ⟨?_,?_,?_⟩
      · intro entry hentry
        rcases List.mem_append.mp hentry with hold | hnew
        · exact hu.handed entry hold
        · obtain ⟨bytes,hresp,rfl⟩ := Option.map_eq_some_iff.mp (Option.mem_toList.mp hnew)
          exact (hhanded bytes hresp).2
      · intro hpooled
        rcases modeAfter_processHeader h conf world (c.flight.take n) own ho.stage with
          hclosed | hbusy | ⟨-,bytes,hresp⟩
        · cases hpooled.symm.trans hclosed
        · cases hpooled.symm.trans hbusy
        · exact (hhanded bytes hresp).1
      · intro v r hbusy
        rcases modeAfter_processHeader h conf world (c.flight.take n) own ho.stage with hclosed | hgoes | ⟨hpooled,-⟩
        · cases hbusy.symm.trans hclosed
        · cases hbusy.symm.trans hgoes
          exact ⟨ho.stage,ho.size,hstream.trans ho.stream⟩
        · cases hbusy.symm.trans hpooled
    · cases hstep
  · cases hstep

theorem uncrossed_step (hu : Uncrossed c) (he : e.created ∧ CutsHeld h conf c e)
    (hstep : connStep h conf c e = some c') : Uncrossed c' := by
  cases e with
  | take request es asking own => exact uncrossed_take hu he.1 he.2 hstep
  | read world n => exact uncrossed_read hu he.2 hstep
  | close =>
    cases hstep
    refine ⟨hu.handed,?_,?_⟩
    · intro hpooled
      cases hpooled
    · intro u own hbusy
      cases hbusy

/-- While replies are cut only where the framing check waits, and `ASKING` is answered where it is
expected, every request is given its own reply and a pooled connection has no bytes outstanding. -/
theorem replies_uncrossed {es : List ConnEvent} (hcreated : ∀ e ∈ es, e.created)
    (halong : Machine.Along (connStep h conf) (CutsHeld h conf) Conn.fresh es)
    (hrun : Machine.run (connStep h conf) Conn.fresh es = some c) :
    (∀ entry ∈ c.handed, entry.2 = encode entry.1) ∧ (c.mode = .pooled → c.flight = []) := by
  have hstart : Uncrossed Conn.fresh := by
    refine ⟨nofun,fun _ => rfl,?_⟩
    intro u own hbusy
    cases hbusy
  have huncrossed := Machine.invariant_run uncrossed_step hstart
    ((Machine.along_of_forall hcreated).and halong) hrun
  exact ⟨huncrossed.handed,huncrossed.pooled⟩

end Runs

def okReply : Reply := .status ⟨text "OK",oneLine_of_all (by decide)⟩

/-- A request answered with `$3 abc`, which arrives in two pieces. -/
def cutBulk : List ConnEvent :=
  [.take (getRequest 3) [.connect emptyWorld [] .ok] okReply (.bulk abc),.read emptyWorld 4,
    .read emptyWorld 5]

theorem replies_uncrossed_cut_bulk :
    ∃ c, Machine.run (connStep plainHandler (tableConf 3 3)) Conn.fresh cutBulk = some c ∧
      c.handed.length = 1 ∧ (∀ entry ∈ c.handed, entry.2 = encode entry.1) ∧
        (c.mode = .pooled → c.flight = []) := by
  have hlength : (Machine.run (connStep plainHandler (tableConf 3 3)) Conn.fresh cutBulk).map
      (fun c => c.handed.length) = some 1 := by
    decide +kernel
  obtain ⟨c,hrun,hone⟩ := Option.map_eq_some_iff.mp hlength
  have hcreated : ∀ e ∈ cutBulk, e.created := by
    simpa [cutBulk, ConnEvent.created] using created_getRequest 3
  refine ⟨c,hrun,hone,replies_uncrossed hcreated ?_ hrun⟩
  refine ⟨⟨?_,?_,?_⟩,fun c₁ h₁ => ⟨?_,fun c₂ h₂ => ⟨?_,fun _ _ => trivial⟩⟩⟩
  · decide +kernel
  · decide +kernel
  · decide +kernel
  · -- the first cut, behind the length
    intro u own hbusy _
    obtain ⟨-,v,hv,-,hbuffer,rfl⟩ := connStep_take h₁
    cases hbusy
    have hflag : (Machine.run (step plainHandler (tableConf 3 3))
        (Upstream.start (tableConf 3 3) (getRequest 3)) [.connect emptyWorld [] .ok]).map
          (·.movedAsk) = some .ok := by
      decide +kernel
    rw [hv] at hflag
    have hplain : u.movedAsk = .ok := Option.some.inj hflag
    rw [hplain, hbuffer]
    have hdigits : (decimal (text "abc").length).length + 2 ≤ 4 := by decide
    exact ⟨hdigits,nofun⟩
  · -- the second read takes all that is left
    intro u own _ hcut
    have hflight : ((connStep plainHandler (tableConf 3 3) Conn.fresh
        (.take (getRequest 3) [.connect emptyWorld [] .ok] okReply (.bulk abc))).bind fun c =>
          connStep plainHandler (tableConf 3 3) c (.read emptyWorld 4)).map (·.flight.length) =
        some 5 := by
      decide +kernel
    rw [h₁, Option.bind_some, h₂] at hflight
    have hfive : c₂.flight.length = 5 := Option.some.inj hflight
    rw [hfive] at hcut
    exact absurd hcut (lt_irrefl 5)

/-- A request in its last try, with `ASKING` left before its command, reads the answer to `ASKING` for its
own; the next request is given the value the first one asked for. A null bulk that is cut before its line
end leaves the line end to the next request. -/
theorem reply_crosses_requests :
    Created (getRequest 3) ∧
      (Machine.run (connStep plainHandler (tableConf 3 3)) Conn.fresh
        [.take (getRequest 3) (askEvents ++ [.timeout,.connect emptyWorld [] .cached]) okReply
            (.bulk abc),
          .read emptyWorld 5,
          .take (getRequest 3) [.connect emptyWorld [] .cached] okReply (.bulk none),
          .read emptyWorld 9]).map (fun c => c.handed.map fun entry => (encode entry.1,entry.2)) =
        some [(encode (.bulk abc),askingOk),(encode (.bulk none),encode (.bulk abc))] ∧
      (Machine.run (connStep plainHandler (tableConf 3 3)) Conn.fresh
        [.take (getRequest 3) [.connect emptyWorld [] .cached] okReply (.bulk none),
          .read emptyWorld 3,
          .take (getRequest 3) [.connect emptyWorld [] .cached] okReply (.bulk abc)]).map (·.flight) =
        some (crlf ++ encode (.bulk abc)) :=
  ⟨created_getRequest 3,by decide +kernel,by decide +kernel⟩

end QkPack

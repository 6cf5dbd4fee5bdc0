import QkPack.Protocol.CommandArgs
import QkPack.Retry.Copies

/-!
# `ASKING` and the flag

The frame of `ASKING` stands before the request bytes exactly while the flag is `ASKING_END`, unless the
last try is reached in that state: the flag is then reset and the bytes are kept.
-/

namespace QkPack
open Wire CString Resp Relation

/-- A request as `CreateRequest` hands it to the upstream module. Requests that are answered by
sub-requests do not get there, and no sub-request is a `ZBATCHADD`. -/
structure Created (request : Request) : Prop where
  encoded : ∃ proto scripts parent request₀, request₀.commandType ≠ .zbatchadd ∧
    (redisProtoEncode proto scripts parent request₀).1 = .ok request
  single : checkSubRequest request = false
  unmarked : request.code ≠ .timeout5xx

section Created

variable {request : Request} (hc : Created request)
include hc

theorem Created.frame :
    if request.code = .ok then CommandFrame request.protoStr else request.protoStr = pingFrame := by
  obtain ⟨proto,scripts,parent,request₀,hbatch,hencode⟩ := hc.encoded
  obtain ⟨⟨hcode,-⟩,hframe⟩ := redisProtoEncode_frame hbatch hencode
  rwa [hcode]

theorem Created.not_asking : ¬ askingFrame <+: request.protoStr := by
  have hframe := hc.frame
  split at hframe
  · exact hframe.not_asking
  · rw [hframe]
    exact pingFrame_not_asking

theorem Created.ne_nil : request.protoStr ≠ [] := by
  have hframe := hc.frame
  split at hframe
  · exact hframe.ne_nil
  · rw [hframe]
    decide

end Created

/-- What holds of the copies of a request created with the bytes `orig`, whatever happens to it. -/
structure Sound (orig : Bytes) (w : Copies) : Prop where
  fanOut : w.fanOut = false
  bufs : w.requestBufs = orig ∨ w.requestBufs = askingFrame ++ orig
  buffer : w.requestBuffer = orig ∨ w.requestBuffer = askingFrame ++ orig
  redirected : w.flag = .moved ∨ w.flag = .ask → w.protoStr = orig
  asking : w.flag = .asking →
    w.protoStr = askingFrame ++ orig ∧ w.requestBuffer = askingFrame ++ orig
  plain : w.flag = .ok → w.code = .ok → w.protoStr = orig
  marked : w.code = .timeout5xx → w.flag = .ok

section Invariant

variable {orig : Bytes} {marks : Copies → Prop} {w w' : Copies}

theorem Sound.copyStep (hs : Sound orig w) (hstep : CopyStep marks w w') : Sound orig w' := by
  cases hstep with
  | mark h => exact ⟨hs.fanOut,hs.bufs,hs.buffer,by simp,by simp,by simp,by simp⟩
  | ask h =>
    have hproto := hs.redirected (.inr h)
    refine ⟨hs.fanOut,hs.bufs,.inr (by rw [hproto]),by simp,by simp [hproto],by simp,?_⟩
    intro hcode
    rw [hs.marked hcode] at h
    cases h
  | refresh h =>
    have hproto := (hs.asking h).1
    exact ⟨hs.fanOut,hs.bufs,.inr hproto,hs.redirected,fun _ => ⟨hproto,hproto⟩,hs.plain,hs.marked⟩
  | moved h =>
    exact ⟨hs.fanOut,hs.bufs,hs.buffer,by simp,by simp,fun _ _ => hs.redirected (.inl h),fun _ => rfl⟩
  | asking h =>
    refine ⟨hs.fanOut,hs.buffer,hs.buffer,by simp,by simp,by simp,?_⟩
    intro hcode
    rw [hs.marked hcode] at h
    cases h
  | redirect flag hcode hold hnew =>
    have hproto : w.protoStr = orig := by
      rcases hold with hold | hold
      · exact hs.plain hold hcode
      · exact hs.redirected (.inl hold)
    refine ⟨hs.fanOut,hs.bufs,hs.buffer,fun _ => hproto,?_,fun _ _ => hproto,?_⟩
    · intro hflag
      rcases hnew with rfl | rfl <;> cases hflag
    · intro htimeout
      rw [hcode] at htimeout
      cases htimeout

/-- The frame of `ASKING` is there exactly while the flag says so. -/
def FramePaired (orig : Bytes) (w : Copies) : Prop :=
  w.requestBufs = if w.flag = .askingEnd then askingFrame ++ orig else orig

theorem FramePaired.copyStep (hs : Sound orig w) (hp : FramePaired orig w)
    (hmarks : marks w → w.flag ≠ .askingEnd) (hstep : CopyStep marks w w') : FramePaired orig w' := by
  unfold FramePaired at hp ⊢
  cases hstep with
  | mark h =>
    rw [if_neg (hmarks h)] at hp
    simpa using hp
  | ask h => simpa [h] using hp
  | refresh h => exact hp
  | moved h => simpa [h] using hp
  | asking h => simpa using (hs.asking h).2
  | redirect flag hcode hold hnew =>
    have hplain : w.requestBufs = orig := by
      rcases hold with hold | hold <;> simpa [hold] using hp
    rcases hnew with rfl | rfl <;> simpa using hplain

theorem Sound.copySteps (hs : Sound orig w) (hsteps : ReflTransGen (CopyStep marks) w w') :
    Sound orig w' := by
  induction hsteps with
  | refl => exact hs
  | tail _ hstep ih => exact ih.copyStep hstep

theorem FramePaired.copySteps (hs : Sound orig w) (hp : FramePaired orig w)
    (hmarks : ∀ w, marks w → w.flag ≠ .askingEnd) (hsteps : ReflTransGen (CopyStep marks) w w') :
    FramePaired orig w' := by
  induction hsteps with
  | refl => exact hp
  | tail hsteps hstep ih => exact ih.copyStep (hs.copySteps hsteps) (hmarks _) hstep

end Invariant

section Runs

variable {h : Handler} {conf : UpstreamConf} {orig : Bytes} {u v : Upstream} {e : Event}

structure RunSound (orig : Bytes) (u : Upstream) : Prop where
  bufs : u.requestBufs = orig ∨ u.requestBufs = askingFrame ++ orig
  live : ¬ u.isDone → Sound orig u.copies

theorem runSound_step (hs : RunSound orig u) (hstep : step h conf u e = some v) :
    RunSound orig v := by
  have hu := hs.live (not_isDone_of_step hstep)
  rcases step_copies hu.fanOut hstep with ⟨hdone,hbufs⟩ | hcopies
  · refine ⟨?_,fun hlive => absurd hdone hlive⟩
    rw [hbufs]
    exact hs.bufs
  · have hv := hu.copySteps hcopies
    exact ⟨hv.bufs,fun _ => hv⟩

theorem runSound_of_single {request : Request} (hsingle : checkSubRequest request = false)
    (hunmarked : request.code ≠ .timeout5xx) : RunSound request.protoStr (Upstream.start conf request) where
  bufs := .inl rfl
  live _ := ⟨hsingle,.inl rfl,.inl rfl,fun _ => rfl,nofun,fun _ _ => rfl,fun hcode => absurd hcode hunmarked⟩

theorem runSound_start {request : Request} (hc : Created request) :
    RunSound request.protoStr (Upstream.start conf request) := runSound_of_single hc.single hc.unmarked

/-- The last try is not reached while the answer to `ASKING` is awaited. -/
def KeepsAsking (u : Upstream) (e : Event) : Prop := u.marks e → u.movedAsk ≠ .askingEnd

instance (u : Upstream) (e : Event) : Decidable (KeepsAsking u e) :=
  inferInstanceAs (Decidable (u.marks e → _))

/-- A state with its frame paired, or the end. -/
def RunPaired (orig : Bytes) (u : Upstream) : Prop :=
  RunSound orig u ∧ (¬ u.isDone → FramePaired orig u.copies)

theorem runPaired_step (hp : RunPaired orig u) (hkeeps : KeepsAsking u e)
    (hstep : step h conf u e = some v) : RunPaired orig v := by
  refine ⟨runSound_step hp.1 hstep,fun hlive => ?_⟩
  have hu := not_isDone_of_step hstep
  rcases step_copies (hp.1.live hu).fanOut hstep with hdone | hcopies
  · exact absurd hdone.1 hlive
  · refine (hp.2 hu).copySteps (hp.1.live hu) ?_ hcopies
    rintro _ ⟨rfl,hmarks⟩
    exact hkeeps hmarks

/-- In a run that does not reach the last try while the answer to `ASKING` is awaited, the bytes sent
begin with `ASKING` exactly when the flag makes `process_header` strip its answer, and never twice. -/
theorem asking_frame_paired {request : Request} (hc : Created request) {es : List Event}
    (halong : Machine.Along (step h conf) KeepsAsking (Upstream.start conf request) es)
    (hrun : Machine.run (step h conf) (Upstream.start conf request) es = some u) :
    (u.stage = .sent → (askingFrame <+: u.requestBufs ↔ u.movedAsk = .askingEnd)) ∧
      ¬ askingFrame ++ askingFrame <+: u.requestBufs := by
  have hstart : RunPaired request.protoStr (Upstream.start conf request) :=
    ⟨runSound_start hc,fun _ => rfl⟩
  have hpaired := Machine.invariant_run runPaired_step hstart halong hrun
  constructor
  · intro hsent
    have hbufs : u.requestBufs =
        if u.movedAsk = .askingEnd then askingFrame ++ request.protoStr else request.protoStr :=
      hpaired.2 (not_isDone_of_sent hsent)
    rw [hbufs]
    split
    · rename_i hflag
      exact iff_of_true (List.prefix_append _ _) hflag
    · rename_i hflag
      exact iff_of_false hc.not_asking hflag
  · rcases hpaired.1.bufs with hbufs | hbufs
    · rw [hbufs]
      exact fun htwice => hc.not_asking ((List.prefix_append _ _).trans htwice)
    · rw [hbufs, List.prefix_append_right_inj]
      exact hc.not_asking

end Runs

def plainHandler : Handler := ⟨literalProto,text "127.0.0.1:8010",fun _ _ => some [],fun _ => 0⟩

def tableConf (tries peers : Nat) : UpstreamConf := ⟨tries,fun _ => true,true,false,peers⟩

/-- A request to get `abk`, with a limit on the tries, before it is encoded. -/
def bareGet (tries : Nat) : Request :=
  { Request.fresh with
    commandType := .get
    namespaces := text "ab"
    key := text "k"
    nodeIp := text "10.0.0.1:7000"
    tries := tries }

def getRequest (tries : Nat) : Request :=
  { (bareGet tries).named "GET" with
    protoStr := arrayHeader 2 ++ [text "GET",text "ab" ++ text "k"].flatMap encBulk }

theorem created_getRequest (tries : Nat) : Created (getRequest tries) where
  encoded := by
    refine ⟨literalProto,fun _ _ => [],none,bareGet tries,nofun,?_⟩
    have hcode : ¬ (bareGet tries).code ≠ .ok := not_not.mpr rfl
    have hcommand : (bareGet tries).commandType = .get := rfl
    have hargs : ∀ arg ∈ [text "GET",text "ab" ++ text "k"], arg.length < 2 ^ 31 := by decide
    rw [redisProtoEncode, if_neg hcode]
    simp only [hcommand]
    exact build_short ((bareGet tries).named "GET") rfl hargs
  single := rfl
  unmarked := nofun

def emptyWorld : World := ⟨⟨fun _ _ => none,fun _ _ => []⟩,none,fun _ => []⟩

/-- A request that is redirected with `ASK` and sent to the node named. -/
def askEvents : List Event :=
  [.connect emptyWorld [] .ok,.read emptyWorld (text "-ASK 1 10.0.0.2:7000" ++ crlf),
    .connect emptyWorld [] .ok]

theorem asking_frame_paired_redirected :
    ∃ u, Machine.run (step plainHandler (tableConf 3 3)) (Upstream.start (tableConf 3 3) (getRequest 3))
        askEvents = some u ∧ u.stage = .sent ∧ (askingFrame <+: u.requestBufs ↔ u.movedAsk = .askingEnd) ∧
      ¬ askingFrame ++ askingFrame <+: u.requestBufs := by
  have hstage : (Machine.run (step plainHandler (tableConf 3 3))
      (Upstream.start (tableConf 3 3) (getRequest 3)) askEvents).map (·.stage) = some .sent := by
    decide +kernel
  obtain ⟨u,hrun,hsent⟩ := Option.map_eq_some_iff.mp hstage
  have hpaired := asking_frame_paired (created_getRequest 3) (by decide +kernel) hrun
  exact ⟨u,hrun,hsent,hpaired.1 hsent,hpaired.2⟩

/-- With three tries, the redirected request times out and the last try is made: it is sent again with
`ASKING` before it, but the flag that announces the additional answer has been reset. -/
theorem asking_frame_left_behind :
    Created (getRequest 3) ∧
      (Machine.run (step plainHandler (tableConf 3 3)) (Upstream.start (tableConf 3 3) (getRequest 3))
        (askEvents ++ [.timeout,.connect emptyWorld [] .ok])).map
          (fun u => (u.stage,u.movedAsk,askingFrame.isPrefixOf u.requestBufs)) =
        some (.sent,.ok,true) :=
  ⟨created_getRequest 3,by decide +kernel⟩

end QkPack

import QkPack.Core.Handler

/-!
# The frames of the encoders

What `proto_str` can be after `RedisProtoEncode`: the `PING` of a request that has failed, or a command
with at least one argument. None of them begins with the frame of `ASKING`.
-/

namespace QkPack
open Wire CString Resp

/-- The frame of `RedisProtoEncodePing`. -/
def pingFrame : Bytes := arrayHeader 1 ++ encBulk (text "ping")

/-- A command with arguments; only `MGET` could be without, if there were no keys. -/
def CommandFrame (s : Bytes) : Prop :=
  (∃ n args, 2 ≤ n ∧ s = arrayHeader n ++ args) ∨ s = arrayHeader 1 ++ encBulk (text "MGET")

/-- The encoders leave the code of a request, whose it is, and what it is about. -/
def SameOrigin (request r : Request) : Prop :=
  r.code = request.code ∧ r.isSubrequest = request.isSubrequest ∧
    r.commandType = request.commandType ∧ r.key = request.key ∧ r.slotId = request.slotId

theorem askingFrame_eq : askingFrame = arrayHeader 1 ++ encBulk (text "ASKING") := by decide

/-- No encoder's frame begins with `ASKING`. -/
theorem CommandFrame.not_asking {s : Bytes} (h : CommandFrame s) : ¬ askingFrame <+: s := by
  rintro ⟨t,ht⟩
  rw [askingFrame_eq, List.append_assoc] at ht
  rcases h with ⟨n,args,hn,rfl⟩ | rfl
  · have := arrayHeader_inj ht
    omega
  · have hbulk := List.append_cancel_left ht
    rw [show encBulk (text "MGET") = 36 :: 52 :: (crlf ++ text "MGET" ++ crlf) by decide,
      show encBulk (text "ASKING") = 36 :: 54 :: (crlf ++ text "ASKING" ++ crlf) by decide] at hbulk
    simp at hbulk

theorem CommandFrame.ne_ping {s : Bytes} (h : CommandFrame s) : s ≠ pingFrame := by
  rintro rfl
  rcases h with ⟨n,args,hn,hs⟩ | hs
  · have := arrayHeader_inj hs
    omega
  · revert hs
    decide

theorem CommandFrame.ne_nil {s : Bytes} (h : CommandFrame s) : s ≠ [] := by
  rcases h with ⟨n,args,-,rfl⟩ | rfl
  · simp [arrayHeader]
  · simp [arrayHeader]

theorem pingFrame_not_asking : ¬ askingFrame <+: pingFrame := by decide

end QkPack

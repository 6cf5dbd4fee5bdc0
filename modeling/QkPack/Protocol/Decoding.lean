import QkPack.Protocol.Decode
import Mathlib.Logic.Relation

/-!
# What the decoders can do

All that an element of an array and a reply can do to a request and its parent, said once. What holds of every decoded
reply is derived from this.
-/

namespace QkPack
open Wire CString Resp

section Arrays

variable {proto : RedisProto} {stack : Nat → Bytes} {reply : Bytes} {s s' : ArrayState}

inductive ArrayStep (proto : RedisProto) (s : ArrayState) : ArrayState → Prop
  | passed : ArrayStep proto s s
  | slot {parent parent' : Request} {i : Nat} {value : Bytes} (hparent : s.parent = some parent)
      (hset : parent.setSlotValue s.request.slotId i value = .ok parent') :
      ArrayStep proto s { s with parent := some parent' }
  | listed (member : Bytes) : ArrayStep proto s (s.pushMember member)
  | named {parent : Request} {element : Bytes} (hparent : s.parent = some parent) (hlen : element.length < 2 ^ 31) :
      ArrayStep proto s { s with member := element.drop parent.namespaces.length }
  | scored {parent : Request} (hparent : s.parent = some parent) (value : Bytes) :
      ArrayStep proto s ⟨s.request,some { parent with
        mapKv := mapPush s.request.key ⟨s.member,[],proto.strToDouble value,0⟩ parent.mapKv },[]⟩

theorem putSlot_step {i : Nat} {value : Bytes} (h : s.putSlot i value = .ok s') : ArrayStep proto s s' := by
  unfold ArrayState.putSlot at h
  split at h
  · cases h
  · rename_i parent hparent
    obtain ⟨parent',hset,h⟩ := bind_eq_ok.mp h
    cases h
    exact .slot hparent hset

theorem pushScored_step {i : Nat} {bytes : Except DecodeFault Bytes}
    (hbytes : ∀ value, bytes = .ok value → value.length < 2 ^ 31)
    (h : s.pushScored proto i bytes = .ok s') : ArrayStep proto s s' := by
  unfold ArrayState.pushScored at h
  split at h
  · cases h
  · rename_i parent hparent
    obtain ⟨value,hvalue,h⟩ := bind_eq_ok.mp h
    split at h
    · cases h
      exact .scored hparent value
    · cases h
      exact .named hparent (hbytes value hvalue)

theorem getArrayNull_step {i : Nat} (h : getArrayNull i s = .ok s') : ArrayStep proto s s' := by
  unfold getArrayNull at h
  split at h
  · exact putSlot_step h
  · exact putSlot_step h
  · cases h
    exact .passed

theorem getArrayValue_step {i : Nat} {bytes : Except DecodeFault Bytes}
    (hbytes : ∀ value, bytes = .ok value → value.length < 2 ^ 31)
    (h : getArrayValue proto stack i bytes s = .ok s') : ArrayStep proto s s' := by
  unfold getArrayValue at h
  split at h
  · obtain ⟨read,-,h⟩ := bind_eq_ok.mp h
    obtain ⟨value,-,h⟩ := bind_eq_ok.mp h
    exact putSlot_step h
  · obtain ⟨read,-,h⟩ := bind_eq_ok.mp h
    obtain ⟨value,-,h⟩ := bind_eq_ok.mp h
    exact putSlot_step h
  · obtain ⟨read,-,h⟩ := bind_eq_ok.mp h
    obtain ⟨value,-,h⟩ := bind_eq_ok.mp h
    cases h
    exact .listed value
  · exact pushScored_step hbytes h
  · exact pushScored_step hbytes h
  · cases h
    exact .passed

theorem readString_length {p n : Int} {value : Bytes} (hn : n < 2 ^ 31) (h : readString reply p n = .ok value) :
    value.length < 2 ^ 31 := by
  unfold readString at h
  split at h
  · cases h
  · split at h
    · cases h
    · cases h
      rw [List.length_take]
      omega

theorem getArrayLoop_steps {n i : Nat} {rest : Int} (h : getArrayLoop proto stack reply n i rest s = .ok s') :
    Relation.ReflTransGen (ArrayStep proto) s s' := by
  induction n generalizing i rest s with
  | zero =>
    cases h
    exact .refl
  | succ n ih =>
    rw [getArrayLoop] at h
    simp only at h
    split at h
    · obtain ⟨t,ht,h⟩ := bind_eq_ok.mp h
      exact (ih h).head (getArrayNull_step ht)
    · obtain ⟨t,ht,h⟩ := bind_eq_ok.mp h
      refine (ih h).head (getArrayValue_step ?_ ht)
      intro value hvalue
      exact readString_length (int32_lt _) hvalue

end Arrays

/-- What a reply can be decoded to. Of the error lines the redirections are left to the caller, and so is one that asks
for the scripts; any other counts as decoded. -/
inductive DecodedAs (proto : RedisProto) (scripts : ScriptCache) (parent : Option Request) (request : Request) :
    Decoded → Prop
  | nothing : DecodedAs proto scripts parent request ⟨.error,request,parent,scripts⟩
  | redirection {rc : RedisRc} (scripts' : ScriptCache) (hcode : request.code = .ok)
      (hline : request.responseBuffer.head? = some 45) (hrc : rc ≠ .ok) :
      DecodedAs proto scripts parent request ⟨rc,request,parent,scripts'⟩
  | complaint (desc : Bytes) (hline : request.responseBuffer.head? = some 45) :
      DecodedAs proto scripts parent request
        ⟨.ok,{ request with desc := desc, code := .redisStorageError },parent,scripts⟩
  | status (value : Bytes) (hline : request.responseBuffer.head? = some 43) :
      DecodedAs proto scripts parent request ⟨.ok,{ request with value := value },parent,scripts⟩
  | integer (num : Int) (hline : request.responseBuffer.head? = some 58) :
      DecodedAs proto scripts parent request ⟨.ok,{ request with num := num },parent,scripts⟩
  | bulk (value : Bytes) (hline : request.responseBuffer.head? = some 36) :
      DecodedAs proto scripts parent request (ttlCheck ⟨.ok,{ request with value := value },parent,scripts⟩)
  | nullArray : DecodedAs proto scripts parent request (ttlCheck ⟨.error,request,parent,scripts⟩)
  | array {s : ArrayState} (hline : request.responseBuffer.head? = some 42)
      (hsteps : Relation.ReflTransGen (ArrayStep proto) ⟨request,parent,[]⟩ s) :
      DecodedAs proto scripts parent request (ttlCheck ⟨.ok,s.request,s.parent,scripts⟩)

section Replies

variable {proto : RedisProto} {stack : Nat → Bytes} {scripts scripts' : ScriptCache} {parent : Option Request}
  {request request' : Request}

theorem getError_decoded {rc : RedisRc} (hcode : request.code = .ok) (hline : request.responseBuffer.head? = some 45)
    (h : redisProtoDecodeGetError proto request.responseBuffer 1 scripts request = .ok (rc,request',scripts')) :
    DecodedAs proto scripts parent request ⟨rc,request',parent,scripts'⟩ := by
  simp only [redisProtoDecodeGetError] at h
  split at h
  · cases h
    exact .redirection _ hcode hline nofun
  split at h
  · cases h
    exact .redirection _ hcode hline nofun
  split at h
  · cases h
    exact .redirection _ hcode hline nofun
  split at h
  · split at h
    · cases h
      exact .redirection _ hcode hline nofun
    · cases h
      exact .redirection _ hcode hline nofun
  · obtain ⟨desc,-,h⟩ := bind_eq_ok.mp h
    cases h
    exact .complaint desc hline

theorem getString_decoded (hline : request.responseBuffer.head? = some 36)
    (h : redisProtoDecodeGetString proto stack request.responseBuffer 1 request = .ok request') :
    DecodedAs proto scripts parent request (ttlCheck ⟨.ok,request',parent,scripts⟩) := by
  simp only [redisProtoDecodeGetString] at h
  split at h
  · cases h
    exact .bulk null hline
  · obtain ⟨read,-,h⟩ := bind_eq_ok.mp h
    obtain ⟨value,-,h⟩ := bind_eq_ok.mp h
    cases h
    exact .bulk value hline

theorem getArray_decoded {rc : RedisRc} {s : ArrayState} (hline : request.responseBuffer.head? = some 42)
    (h : redisProtoDecodeGetArray proto stack request.responseBuffer 1 parent request = .ok (rc,s)) :
    DecodedAs proto scripts parent request (ttlCheck ⟨rc,s.request,s.parent,scripts⟩) := by
  simp only [redisProtoDecodeGetArray] at h
  split at h
  · cases h
    exact .nullArray
  · obtain ⟨s',hloop,h⟩ := bind_eq_ok.mp h
    cases h
    exact .array hline (getArrayLoop_steps hloop)

theorem redisProtoDecode_cases {d : Decoded} (h : redisProtoDecode proto stack scripts parent request = .ok d) :
    DecodedAs proto scripts parent request d := by
  by_cases hcode : request.code = .ok
  · simp only [redisProtoDecode, hcode, ne_eq, not_true_eq_false, if_false] at h
    split at h
    · rename_i hline
      obtain ⟨⟨rc,request',scripts'⟩,herr,h⟩ := bind_eq_ok.mp h
      cases h
      exact getError_decoded hcode hline herr
    · rename_i hline
      obtain ⟨request',hstatus,h⟩ := bind_eq_ok.mp h
      obtain ⟨value,-,hstatus⟩ := bind_eq_ok.mp hstatus
      cases h
      cases hstatus
      exact .status value hline
    · rename_i hline
      cases h
      exact .integer _ hline
    · rename_i hline
      obtain ⟨request',hstring,h⟩ := bind_eq_ok.mp h
      cases h
      exact getString_decoded hline hstring
    · rename_i hline
      obtain ⟨⟨rc,s⟩,harray,h⟩ := bind_eq_ok.mp h
      cases h
      exact getArray_decoded hline harray
    · cases h
      exact .nothing
  · rw [redisProtoDecode_coded hcode] at h
    cases h
    exact .nothing

end Replies

theorem ttlCheck_rc (d : Decoded) : (ttlCheck d).rc = d.rc ∨ (ttlCheck d).rc = .error := by
  unfold ttlCheck
  split
  · exact .inr rfl
  · split
    · exact .inr rfl
    · exact .inl rfl

theorem ttlCheck_parent (d : Decoded) : (ttlCheck d).parent = d.parent := by
  unfold ttlCheck
  split
  · rfl
  · split <;> rfl

end QkPack

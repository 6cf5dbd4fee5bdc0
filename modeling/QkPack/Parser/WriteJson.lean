import QkPack.FanOut.SubRequests
import QkPack.Lib.JsonGen

/-!
# The answers to clients

The writers of `QkPackYajlJSON` and `QkPackYajlJSONImpl`. Each of them is a sequence of calls of the generator, given
here as the document these calls put; `cost` is the time that was measured just before.
-/

namespace QkPack
open Wire CString Resp Json

section Writers

variable (cost : Int) (request : Request)

def writerJsonCommon : List (Bytes × Doc) :=
  [(text "e",.map [(text "code",.word (decimal request.code.value)),(text "desc",.string request.desc)]),
    (text "cost",.word (intText cost))]

def writerJsonGet : Doc :=
  .map (writerJsonCommon cost request ++ [(text "k",.string request.key),(text "v",.string request.value)])

/-- What is shown under `data`. -/
def writtenData : Doc :=
  match request.commandType with
  | .sismember => .word (if request.num ≠ 0 then text "true" else text "false")
  | .set => .string request.value
  | _ => .word (intText request.num)

def writerJsonTtl : Doc := .map (writerJsonCommon cost request ++ [(text "data",writtenData request)])

def writerJsonSmembers : Doc :=
  .map (writerJsonCommon cost request ++
    [(text "k",.string request.key),(text "mbs",.array (request.vectorMbs.map .string))])

def writerJsonMset : Doc := .map (writerJsonCommon cost request)

/-- The array `ks` of `WriterJsonMget`: an entry without a value is shown as `null`. The entries of
`vector_kv` are seen through the slots, which hold pointers to them. -/
def writerJsonMgetKs : List (Bytes × Bytes) :=
  (seenKvs request.namespaces request.vectorKv request.mapSlotsKv).1.map fun kv =>
    (kv.key,if kv.value = [] then null else kv.value)

/-- A value that was not found is shown as a string. -/
def writerJsonMget : Doc :=
  .map (writerJsonCommon cost request ++ [(text "ks",.array ((writerJsonMgetKs request).map fun shown => .map
    [(text "k",.string shown.1),(text "v",.string shown.2)]))])

variable (printDouble : Double → Bytes)

/-- A score under `yajl_gen_double`, which puts nothing for an infinity. -/
def writtenScore (score : Double) : Doc := if score.isFinite then .word (printDouble score) else .refused

def writtenSet (kvs : List KvPair) : List (Bytes × Doc) :=
  [(text "mc",.word (decimal kvs.length)),
    (text "mbs",.array (kvs.map fun kv => .map
      [(text "mb",.string kv.key),(text "sc",writtenScore printDouble kv.score),(text "v",.string kv.value)]))]

/-- The loop over `map_kv` ends with its first turn. -/
def writerJsonZfixedsetGetByScore : Doc :=
  .map (writerJsonCommon cost request ++ request.mapKv.head?.elim [] fun entry =>
    (text "k",.string entry.1) :: writtenSet printDouble entry.2)

def writerJsonZfixedsetBatchGetByScore : Doc :=
  .map (writerJsonCommon cost request ++
    [(text "kc",.word (decimal request.vectorKv.length)),
      (text "ks",.array (request.vectorKv.map fun kv => .map
        ((text "k",.string kv.key) :: writtenSet printDouble ((request.mapKv.lookup kv.key).getD []))))])

def writerDoc : Writer → Doc
  | .get => writerJsonGet cost request
  | .ttl => writerJsonTtl cost request
  | .smembers => writerJsonSmembers cost request
  | .mset => writerJsonMset cost request
  | .mget => writerJsonMget cost request
  | .zfixedsetGetByScore => writerJsonZfixedsetGetByScore cost request printDouble
  | .zfixedsetBatchGetByScore => writerJsonZfixedsetBatchGetByScore cost request printDouble

/-- Only the answer to `MGET` is written without line feeds. -/
def writerJson (writer : Writer) : Bytes :=
  gen (writer ≠ .mget) (writerDoc cost request printDouble writer).calls

theorem whole_writtenScore {printDouble : Double → Bytes} {score : Double} :
    (writtenScore printDouble score).Whole ↔ score.isFinite = true := by
  unfold writtenScore
  split <;> simp [*]

theorem whole_writtenSet {printDouble : Double → Bytes} {kvs : List KvPair} :
    (∀ m ∈ writtenSet printDouble kvs, m.2.Whole) ↔ ∀ kv ∈ kvs, kv.score.isFinite = true := by
  simp [writtenSet, whole_writtenScore]

theorem whole_writerJsonCommon : ∀ m ∈ writerJsonCommon cost request, m.2.Whole := by
  simp [writerJsonCommon]

theorem whole_getByScore {printDouble : Double → Bytes} :
    (writerJsonZfixedsetGetByScore cost request printDouble).Whole ↔
      ∀ entry ∈ request.mapKv.head?, ∀ kv ∈ entry.2, kv.score.isFinite = true := by
  rw [writerJsonZfixedsetGetByScore, Doc.whole_map, List.forall_mem_append,
    and_iff_right (whole_writerJsonCommon cost request)]
  cases request.mapKv.head? with
  | none => simp
  | some entry =>
    rw [Option.elim_some, List.forall_mem_cons, and_iff_right (Doc.whole_string _), whole_writtenSet]
    simp

theorem whole_batchGetByScore {printDouble : Double → Bytes} :
    (writerJsonZfixedsetBatchGetByScore cost request printDouble).Whole ↔ ∀ kv ∈ request.vectorKv,
      ∀ member ∈ (request.mapKv.lookup kv.key).getD [], member.score.isFinite = true := by
  have hentry (kv : KvPair) : (Doc.map ((text "k",.string kv.key) ::
      writtenSet printDouble ((request.mapKv.lookup kv.key).getD []))).Whole ↔
        ∀ member ∈ (request.mapKv.lookup kv.key).getD [], member.score.isFinite = true := by
    rw [Doc.whole_map, List.forall_mem_cons, whole_writtenSet, and_iff_right (Doc.whole_string _)]
  rw [writerJsonZfixedsetBatchGetByScore, Doc.whole_map, List.forall_mem_append,
    and_iff_right (whole_writerJsonCommon cost request)]
  simp only [List.forall_mem_cons, Doc.whole_array, List.forall_mem_map, hentry]
  simp

end Writers

def yajlHandler (proto : RedisProto) (backupServer : Bytes) (cost : Int) (printDouble : Double → Bytes) : Handler :=
  ⟨proto,backupServer,fun writer request => some (writerJson cost request printDouble writer),fun _ => 0⟩

section Lengths

variable (cost : Int) (request : Request) (printDouble : Double → Bytes)

def commonLength : Nat :=
  72 + (decimal request.code.value).length + shownLength request.desc + (intText cost).length

def dataLength : Nat :=
  match request.commandType with
  | .sismember => if request.num ≠ 0 then 4 else 5
  | .set => 2 + shownLength request.value
  | _ => (intText request.num).length

def membersLength (mbs : List Bytes) : Nat := (mbs.map fun mb => 12 + shownLength mb).sum - 2

theorem answer_length {members : List (Bytes × Doc)} (hwhole : ∀ m ∈ members, m.2.Whole) :
    (gen true (Doc.map (writerJsonCommon cost request ++ members)).calls).length =
      commonLength cost request + (renderMembers true 1 .mapKey members).length := by
  have he : shownLength (text "e") = 1 := by decide
  have hcode : shownLength (text "code") = 4 := by decide
  have hdesc : shownLength (text "desc") = 4 := by decide
  have hcost : shownLength (text "cost") = 4 := by decide
  have hne : writerJsonCommon cost request ≠ [] := List.cons_ne_nil _ _
  have hall : (Doc.map (writerJsonCommon cost request ++ members)).Whole := by
    rw [Doc.whole_map, List.forall_mem_append]
    exact ⟨whole_writerJsonCommon cost request,hwhole⟩
  rw [gen_calls hall, Doc.render, renderMembers_append hne, Nat.zero_add]
  simp only [writerJsonCommon, renderMembers, Doc.render, lead, newline, indent, if_true, List.append_nil,
    List.length_append, List.length_cons, List.length_nil, List.length_replicate, quoted_length, he, hcode, hdesc,
    hcost, commonLength]
  omega

theorem renderMembers_length {name : Bytes} {d : Doc} {more : List (Bytes × Doc)} :
    (renderMembers true 1 .mapKey ((name,d) :: more)).length =
      10 + shownLength name + (d.render true 1).length + (renderMembers true 1 .mapKey more).length := by
  simp only [renderMembers, lead, newline, indent, if_true, List.length_append, List.length_cons, List.length_nil,
    List.length_replicate, quoted_length]
  omega

theorem renderElements_length (mbs : List Bytes) :
    (renderElements true 2 .inArray (mbs.map .string)).length = (mbs.map fun mb => 12 + shownLength mb).sum := by
  induction mbs with
  | nil => rfl
  | cons mb mbs ih =>
    rw [List.map_cons, List.map_cons, List.sum_cons, renderElements, List.length_append, List.length_append, ih,
      Doc.render, quoted_length]
    simp only [lead, newline, indent, if_true, List.length_append, List.length_cons, List.length_nil,
      List.length_replicate]
    omega

theorem writerJson_mset_length : (writerJson cost request printDouble .mset).length = commonLength cost request := by
  have h := answer_length cost request (List.forall_mem_nil fun m : Bytes × Doc => m.2.Whole)
  rw [List.append_nil] at h
  exact h

theorem writerJson_get_length :
    (writerJson cost request printDouble .get).length =
      commonLength cost request + 26 + shownLength request.key + shownLength request.value := by
  have hk : shownLength (text "k") = 1 := by decide
  have hv : shownLength (text "v") = 1 := by decide
  refine (answer_length cost request (by simp)).trans ?_
  rw [renderMembers_length, renderMembers_length, renderMembers, hk, hv, Doc.render, Doc.render, quoted_length,
    quoted_length, List.length_nil]
  omega

theorem writerJson_ttl_length :
    (writerJson cost request printDouble .ttl).length = commonLength cost request + 14 + dataLength request := by
  have hdata : shownLength (text "data") = 4 := by decide
  have hwritten : ((writtenData request).render true 1).length = dataLength request := by
    unfold writtenData dataLength
    cases request.commandType with
    | sismember =>
      dsimp only
      rw [Doc.render]
      split <;> rfl
    | set => exact (quoted_length request.value).trans (Nat.add_comm _ _)
    | _ => rw [Doc.render]
  have hwhole : (writtenData request).Whole := by
    unfold writtenData
    split <;> simp
  refine (answer_length cost request (by simpa using hwhole)).trans ?_
  rw [renderMembers_length, renderMembers, hdata, hwritten, List.length_nil]
  omega

theorem writerJson_smembers_length :
    (writerJson cost request printDouble .smembers).length =
      commonLength cost request + 34 + shownLength request.key + membersLength request.vectorMbs := by
  have hk : shownLength (text "k") = 1 := by decide
  have hmbs : shownLength (text "mbs") = 3 := by decide
  have helements : (renderElements true 2 .arrayStart (request.vectorMbs.map .string)).length =
      membersLength request.vectorMbs := by
    cases request.vectorMbs with
    | nil => rfl
    | cons mb mbs =>
      rw [membersLength, List.map_cons, List.map_cons, List.sum_cons, renderElements, List.length_append,
        List.length_append, renderElements_length, Doc.render, quoted_length]
      simp only [lead, indent, if_true, List.length_replicate]
      omega
  refine (answer_length cost request (by simp)).trans ?_
  rw [renderMembers_length, renderMembers_length, renderMembers, hk, hmbs, Doc.render, Doc.render, quoted_length,
    List.length_nil]
  simp only [newline, indent, if_true, List.length_append, List.length_cons, List.length_nil, List.length_replicate,
    helements]
  omega

end Lengths

end QkPack

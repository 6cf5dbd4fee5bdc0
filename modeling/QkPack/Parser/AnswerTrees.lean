import QkPack.Lib.JsonRead
import QkPack.Parser.SingleAnswers

/-!
# What clients read in the answers

The trees of the answers, writer by writer, and that a client that reads the text of an answer finds that tree, with
every byte of the keys, values and descriptions. A client refuses a text that is not in UTF-8, and nobody can read one
in which a score is missing.
-/

namespace QkPack
open Wire CString Resp Json

section Trees

variable (cost : Int) (request : Request)

def commonTree : List (Bytes × Tree) :=
  [(text "e",.object [(text "code",.number (.finite request.code.value)),(text "desc",.string request.desc)]),
    (text "cost",.number (.finite cost))]

def dataTree : Tree :=
  match request.commandType with
  | .sismember => .boolean (request.num ≠ 0)
  | .set => .string request.value
  | _ => .number (.finite request.num)

variable (shown : Double → Double)

/-- A set as it is shown; a score may be rounded. -/
def setTree (kvs : List KvPair) : List (Bytes × Tree) :=
  [(text "mc",.number (.finite kvs.length)),
    (text "mbs",.array (kvs.map fun kv => .object
      [(text "mb",.string kv.key),(text "sc",.number (shown kv.score)),(text "v",.string kv.value)]))]

def answerTree : Writer → Tree
  | .get => .object (commonTree cost request ++
      [(text "k",.string request.key),(text "v",.string request.value)])
  | .ttl => .object (commonTree cost request ++ [(text "data",dataTree request)])
  | .smembers => .object (commonTree cost request ++
      [(text "k",.string request.key),(text "mbs",.array (request.vectorMbs.map .string))])
  | .mset => .object (commonTree cost request)
  | .mget => .object (commonTree cost request ++
      [(text "ks",.array ((writerJsonMgetKs request).map fun entry =>
        .object [(text "k",.string entry.1),(text "v",.string entry.2)]))])
  | .zfixedsetGetByScore => .object (commonTree cost request ++ request.mapKv.head?.elim [] fun entry =>
      (text "k",.string entry.1) :: setTree shown entry.2)
  | .zfixedsetBatchGetByScore => .object (commonTree cost request ++
      [(text "kc",.number (.finite request.vectorKv.length)),
        (text "ks",.array (request.vectorKv.map fun kv => .object
          ((text "k",.string kv.key) :: setTree shown ((request.mapKv.lookup kv.key).getD []))))])

end Trees

section Depicted

variable (cost : Int) (request : Request)

theorem depicts_common : DepictsMembers (writerJsonCommon cost request) (commonTree cost request) := by
  refine .cons (.map (.cons (.word ?_) (.cons (.string _) .nil))) (.cons (.word ?_) .nil)
  · exact isWord_decimal request.code.value
  · exact isWord_intText cost

theorem depicts_data : Depicts (writtenData request) (dataTree request) := by
  unfold writtenData dataTree
  cases request.commandType with
  | sismember =>
    dsimp only
    split
    case isTrue hnum =>
      rw [decide_eq_true hnum]
      exact .word isWord_true
    case isFalse hnum =>
      rw [decide_eq_false hnum]
      exact .word isWord_false
  | set => exact .string _
  | _ => exact .word (isWord_intText request.num)

variable {printDouble : Double → Bytes} {shown : Double → Double}
  (hshown : ∀ d : Double, d.isFinite = true → IsWord (printDouble d) (.number (shown d)))
include hshown

theorem depicts_set {kvs : List KvPair} (hfinite : ∀ kv ∈ kvs, kv.score.isFinite = true) :
    DepictsMembers (writtenSet printDouble kvs) (setTree shown kvs) := by
  refine .cons (.word (isWord_decimal kvs.length)) (.cons (.array (.map fun kv hkv => ?_)) .nil)
  rw [writtenScore, if_pos (hfinite kv hkv)]
  exact .map (.cons (.string _) (.cons (.word (hshown kv.score (hfinite kv hkv))) (.cons (.string _) .nil)))

theorem depicts_answer {writer : Writer} (hwhole : (writerDoc cost request printDouble writer).Whole) :
    Depicts (writerDoc cost request printDouble writer) (answerTree cost request shown writer) := by
  have hcommon := depicts_common cost request
  cases writer with
  | get => exact .map (hcommon.append (.cons (.string _) (.cons (.string _) .nil)))
  | ttl => exact .map (hcommon.append (.cons (depicts_data request) .nil))
  | smembers =>
    exact .map (hcommon.append (.cons (.string _) (.cons (.array (.map fun _ _ => .string _)) .nil)))
  | mset => exact .map hcommon
  | mget =>
    refine .map (hcommon.append (.cons (.array (.map fun entry _ => ?_)) .nil))
    exact .map (.cons (.string _) (.cons (.string _) .nil))
  | zfixedsetGetByScore =>
    have hfinite := (whole_getByScore cost request).mp hwhole
    refine .map (hcommon.append ?_)
    cases hhead : request.mapKv.head? with
    | none => exact .nil
    | some entry => exact .cons (.string _) (depicts_set hshown (hfinite entry hhead))
  | zfixedsetBatchGetByScore =>
    have hfinite := (whole_batchGetByScore cost request).mp hwhole
    refine .map (hcommon.append (.cons (.word (isWord_decimal _)) (.cons (.array (.map fun kv hkv => ?_)) .nil)))
    exact .map (.cons (.string _) (depicts_set hshown (hfinite kv hkv)))

end Depicted

/-- The whole part of a score, and the score that is then read. -/
def printWhole (d : Double) : Bytes := intText d.whole

theorem isWord_printWhole (d : Double) : IsWord (printWhole d) (.number (.finite d.whole)) := isWord_intText d.whole

def quotedRequest : Request :=
  { Request.fresh with mapKv := [(text "s",[⟨text "a",text "b\",\"sc\": 7",.finite (5 / 2),0⟩,
      ⟨text "c",[0xE4,0xBD,0xA0],.finite (-1),0⟩])] }

/-- The same set with an infinite score: `sc` has the name of the value for its value, and what follows is no JSON. -/
example : parse (writerJson 3 { quotedRequest with mapKv := [(text "s",[⟨text "a",text "b",.infinite false,0⟩])] }
    printWhole .zfixedsetGetByScore) = none := by
  decide +kernel

section Said

def answerNode (cost : Int) (code : ResponseCode) (desc : Bytes) (members : List (Bytes × Tree)) : Tree :=
  .object ([(text "e",.object [(text "code",.number (.finite code.value)),(text "desc",.string desc)]),
    (text "cost",.number (.finite cost))] ++ members)

/-- What clients read of an answer. -/
def SaidMembers (key : Bytes) : Answer → List (Bytes × Tree) → Prop
  | .value v, ms => ms = [(text "k",.string key),(text "v",.string (v.getD null))]
  | .stored, ms => ms = [(text "data",.string (text "OK"))]
  | .count n, ms => ms = [(text "data",.number (.finite n))]
  | .test b, ms => ms = [(text "data",.boolean b)]
  | .members s, ms => ∃ l : List Bytes, l.Nodup ∧ l.toFinset = s ∧
      ms = [(text "k",.string key),(text "mbs",.array (l.map .string))]
  | .refused, _ => False

/-- The tree says what the answer is, or that the command was refused. -/
def Says (cost : Int) (key : Bytes) (a : Answer) (tree : Tree) : Prop :=
  (∃ ms, SaidMembers key a ms ∧ tree = answerNode cost .ok [] ms) ∨
    a = .refused ∧ ∃ desc, tree = answerNode cost .redisStorageError desc []

variable {cost : Int} {key body : Bytes} {a : Answer}

theorem isUtf8_words :
    ∀ name ∈ ["e","code","desc","cost","k","v","data","mbs","OK","true","false"], IsUtf8 (text name) := by
  have hascii : ∀ name ∈ ["e","code","desc","cost","k","v","data","mbs","OK","true","false"],
      ascii (text name) = true := by decide
  exact fun name hname => isUtf8_of_ascii (hascii name hname)

theorem isText_answerDoc {code : ResponseCode} {desc : Bytes} {members : List (Bytes × Doc)}
    {nodes : List (Bytes × Tree)} (h : DepictsMembers members nodes) (hdesc : IsUtf8 desc)
    (hmembers : ∀ m ∈ members, IsUtf8 m.1 ∧ m.2.InUtf8) :
    IsText (gen true (answerDoc cost code desc members).calls) (answerNode cost code desc nodes) := by
  have hcommon : DepictsMembers
      [(text "e",.map [(text "code",.word (decimal code.value)),(text "desc",.string desc)]),
        (text "cost",.word (intText cost))]
      [(text "e",.object [(text "code",.number (.finite code.value)),(text "desc",.string desc)]),
        (text "cost",.number (.finite cost))] :=
    .cons (.map (.cons (.word (isWord_decimal code.value)) (.cons (.string _) .nil)))
      (.cons (.word (isWord_intText cost)) .nil)
  refine isText_gen (.map (hcommon.append h)) ?_
  have hname := isUtf8_words
  simp only [List.mem_cons, List.not_mem_nil, or_false, forall_eq_or_imp, forall_eq] at hname
  simp only [answerDoc, Doc.inUtf8_map, List.forall_mem_append, List.forall_mem_cons, Doc.inUtf8_word,
    Doc.inUtf8_string, hname, hdesc, isUtf8_decimal, isUtf8_intText, true_and, and_true]
  exact ⟨⟨List.forall_mem_nil _,List.forall_mem_nil _⟩,hmembers⟩

theorem ShownMembers.read {ms : List (Bytes × Doc)} (h : ShownMembers key a ms) (hkey : IsUtf8 key) (ha : a.InUtf8) :
    (∀ m ∈ ms, IsUtf8 m.1 ∧ m.2.InUtf8) ∧ ∃ nodes, DepictsMembers ms nodes ∧ SaidMembers key a nodes := by
  have hname := isUtf8_words
  simp only [List.mem_cons, List.not_mem_nil, or_false, forall_eq_or_imp, forall_eq] at hname
  cases a with
  | value v =>
    cases h
    refine ⟨?_,_,.cons (.string _) (.cons (.string _) .nil),rfl⟩
    have hvalue : IsUtf8 (v.getD null) := by
      cases v with
      | none => exact isUtf8_of_ascii (by decide)
      | some w => exact ha w rfl
    simp [hname, hkey, hvalue]
  | stored =>
    cases h
    exact ⟨by simp [hname],_,.cons (.string _) .nil,rfl⟩
  | count n =>
    cases h
    exact ⟨by simp [hname, isUtf8_intText],_,.cons (.word (isWord_intText n)) .nil,rfl⟩
  | test b =>
    cases h
    cases b with
    | true => exact ⟨by simp [hname],_,.cons (.word isWord_true) .nil,rfl⟩
    | false => exact ⟨by simp [hname],_,.cons (.word isWord_false) .nil,rfl⟩
  | members s =>
    obtain ⟨l,hnodup,rfl,rfl⟩ := h
    refine ⟨?_,_,.cons (.string _) (.cons (.array (.map fun _ _ => .string _)) .nil),l,hnodup,rfl,rfl⟩
    simp only [List.forall_mem_cons, Doc.inUtf8_string, Doc.inUtf8_array, List.forall_mem_map, hname, hkey, true_and]
    exact ⟨fun v hv => ha v (List.mem_toFinset.mpr hv),List.forall_mem_nil _⟩
  | refused => cases h

/-- Whoever reads a body that shows an answer in UTF-8 reads this answer. -/
theorem Shows.read (h : Shows cost key a body) (hkey : IsUtf8 key) (ha : a.InUtf8) :
    ∃ tree, IsText body tree ∧ Says cost key a tree := by
  rcases h with ⟨ms,hms,rfl⟩ | ⟨rfl,desc,hdesc,rfl⟩
  · obtain ⟨hutf8,nodes,hdepicts,hsaid⟩ := hms.read hkey ha
    exact ⟨_,isText_answerDoc hdepicts isUtf8_nil hutf8,.inl ⟨nodes,hsaid,rfl⟩⟩
  · exact ⟨_,isText_answerDoc .nil hdesc (List.forall_mem_nil _),.inr ⟨rfl,desc,rfl⟩⟩

end Said

end QkPack

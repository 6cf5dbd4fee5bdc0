import QkPack.Config.AclResponse
import QkPack.Parser.ReadSingle
import QkPack.Parser.ReadSpecs

/-!
# Values that are no strings

A value that is no string gives a null pointer when it is read as one. The readers of bodies ask for the type of
every value but the members of a set; `ReadACLResponse` does not ask for that of the default route and of the
values of both maps. It is also fatal to free a tree twice, as an incomplete quotation that is an object is.
-/

namespace QkPack
open Wire CString Resp Json

section Bodies

/-- What the readers return. -/
def Decided (r : QkpackRc × Request) : Prop := r.1 = .ok ∨ r.1 = .error

variable {α : Type} {check : Tree → Except Bytes α} {node : Option Tree} {request : Request}

theorem decided_refuse (desc : Bytes) : Decided (refuse request desc) := .inr rfl

theorem withAcl_decided {read : α → Request → QkpackRc × Request} (hread : ∀ a r, Decided (read a r)) :
    Decided (withAcl node check request read) := by
  unfold withAcl
  split
  · exact decided_refuse _
  · split
    · exact decided_refuse _
    · split
      · exact decided_refuse _
      · exact hread _ _

theorem readEach_decided {enter : Request → α → Request} (values : List Tree) (request : Request) :
    Decided (readEach check enter values request) := by
  induction values generalizing request with
  | nil => exact .inl rfl
  | cons value values ih =>
    rw [readEach]
    split
    · exact decided_refuse _
    · exact ih _

theorem readSets_decided (values : List Tree) (request : Request) : Decided (readSets values request) := by
  induction values generalizing request with
  | nil => exact .inl rfl
  | cons value values ih =>
    rw [readSets]
    split
    · exact decided_refuse _
    · rename_i key mbs _
      split
      · exact ih _
      · exact readEach_decided mbs request

theorem readVector_decided {entry : α → KvPair} : Decided (readVector check entry node request) := by
  refine withAcl_decided fun keys request => ?_
  split
  · exact .inl rfl
  · exact readEach_decided keys request

theorem readJsonZfixedsetAdd_decided : Decided (readJsonZfixedsetAdd node request) := by
  refine withAcl_decided fun zset request => ?_
  split
  · exact .inl rfl
  · split
    · exact .inl rfl
    · exact readEach_decided zset.2 _

theorem readJsonZfixedsetBatchAdd_decided : Decided (readJsonZfixedsetBatchAdd node request) := by
  refine withAcl_decided fun keys request => ?_
  split
  · exact .inl rfl
  · split
    · exact .inl rfl
    · exact readSets_decided keys _

theorem readJsonFanOut_decided : Decided (readJsonFanOut node request) := by
  unfold readJsonFanOut
  split
  · exact readVector_decided
  · exact readVector_decided
  · exact readJsonZfixedsetAdd_decided
  · exact readJsonZfixedsetBatchAdd_decided
  · exact withAcl_decided fun _ _ => .inl rfl
  · exact withAcl_decided fun _ _ => .inl rfl
  · exact withAcl_decided fun keys r => readEach_decided keys r
  · exact .inl rfl

def Returned (result : Option (QkpackRc × Request)) : Prop := ∃ r, result = some r ∧ Decided r

/-- Every member that is reached, which is one behind accepted strings only, is a string. -/
def StringsReached (mbs : List Tree) : Prop :=
  ∀ before mb after, mbs = before ++ mb :: after →
    (∀ m ∈ before, ∃ s, m = .string s ∧ validateStrEmpty (cStr s) = true) → ∃ s, mb = .string s

theorem stringsReached_nil : StringsReached [] := by
  intro before mb after h
  simp at h

theorem stringsReached_string {s : Bytes} {mbs : List Tree} :
    StringsReached (.string s :: mbs) ↔ (validateStrEmpty (cStr s) = true → StringsReached mbs) := by
  constructor
  · intro h haccepted before mb after heq hbefore
    refine h (.string s :: before) mb after (by rw [heq, List.cons_append]) ?_
    exact List.forall_mem_cons.mpr ⟨⟨s,rfl,haccepted⟩,hbefore⟩
  · intro h before mb after heq hbefore
    cases before with
    | nil => exact ⟨s,(List.cons.inj heq).1.symm⟩
    | cons first before =>
      obtain ⟨rfl,hrest⟩ := List.cons.inj heq
      obtain ⟨⟨t,ht,haccepted⟩,hbefore⟩ := List.forall_mem_cons.mp hbefore
      cases ht
      exact h haccepted before mb after hrest hbefore

theorem readSetMembers_returned_iff (mbs : List Tree) (request : Request) :
    Returned (readSetMembers mbs request) ↔ StringsReached mbs := by
  induction mbs generalizing request with
  | nil => exact iff_of_true ⟨_,rfl,.inl rfl⟩ stringsReached_nil
  | cons mb mbs ih =>
    cases mb with
    | string s =>
      rw [readSetMembers, stringsReached_string]
      split
      · rename_i haccepted
        rw [ih]
        exact ⟨fun h _ => h,fun h => h haccepted⟩
      · rename_i hrefused
        exact iff_of_true ⟨_,rfl,decided_refuse _⟩ fun haccepted => absurd haccepted hrefused
    | _ =>
      refine iff_of_false (fun h => ?_) fun h => ?_
      · obtain ⟨r,hr,_⟩ := h
        cases hr
      · obtain ⟨s,hs⟩ := h [] _ mbs rfl (List.forall_mem_nil _)
        cases hs

/-- When the members of a set are read, those that are reached are strings. -/
def BodyReadable (node : Option Tree) (request : Request) : Prop :=
  request.commandType = .sadd ∨ request.commandType = .srem →
    ∀ tree uri key mbs, node = some tree →
      validateACLInfo (tree.getString "uri") (tree.getString "ak") = .ok uri →
      validateSet (tree.getString "k") (tree.getArray "mbs") = .ok (key,mbs) → StringsReached mbs

theorem validateSet_mbs {key : Option Bytes} {mbs : Option (List Tree)} {zset : Bytes × List Tree}
    (h : validateSet key mbs = .ok zset) : mbs = some zset.2 := by
  obtain ⟨k,-,h⟩ := bind_eq_ok.mp h
  obtain ⟨values,hvalues,h⟩ := bind_eq_ok.mp h
  cases h
  exact (validateArray_eq_ok hvalues).1

theorem readJsonSadd_returned_iff : Returned (readJsonSadd node request) ↔
    ∀ tree uri key mbs, node = some tree → validateACLInfo (tree.getString "uri") (tree.getString "ak") = .ok uri →
      validateSet (tree.getString "k") (tree.getArray "mbs") = .ok (key,mbs) → StringsReached mbs := by
  cases node with
  | none => exact iff_of_true ⟨_,rfl,.inr rfl⟩ fun _ _ _ _ h => nomatch h
  | some tree =>
    rw [readJsonSadd, withAcl]
    cases hacl : validateACLInfo (tree.getString "uri") (tree.getString "ak") with
    | error desc =>
      refine iff_of_true ⟨_,rfl,decided_refuse _⟩ fun tree' uri key mbs htree huri => ?_
      cases htree
      rw [hacl] at huri
      cases huri
    | ok uri =>
      cases hset : validateSet (tree.getString "k") (tree.getArray "mbs") with
      | error desc =>
        refine iff_of_true ⟨_,rfl,decided_refuse _⟩ fun tree' uri key mbs htree _ hmbs => ?_
        cases htree
        rw [hset] at hmbs
        cases hmbs
      | ok zset =>
        simp only [Option.bind_some, validateSet_mbs hset, Option.getD_some, readSetMembers_returned_iff]
        constructor
        · intro h tree' uri' key mbs htree _ hmbs
          cases htree
          rw [hset] at hmbs
          cases hmbs
          exact h
        · exact fun h => h tree uri zset.1 zset.2 rfl hacl hset

theorem readJson_returned (h : ¬ (request.commandType = .sadd ∨ request.commandType = .srem)) :
    Returned (readJson node request) := by
  unfold readJson
  split
  case h_10 hcommand => exact absurd (.inl hcommand) h
  case h_11 hcommand => exact absurd (.inr hcommand) h
  case h_12 => exact ⟨_,rfl,readJsonFanOut_decided⟩
  all_goals exact ⟨_,rfl,withAcl_decided fun _ _ => .inl rfl⟩

theorem readJson_returned_iff : Returned (readJson node request) ↔ BodyReadable node request := by
  by_cases h : request.commandType = .sadd ∨ request.commandType = .srem
  · have hread : readJson node request = readJsonSadd node request := by
      rcases h with h | h <;> simp only [readJson, h]
    rw [hread, readJsonSadd_returned_iff]
    exact ⟨fun hmbs _ => hmbs,fun hmbs => hmbs h⟩
  · exact iff_of_true (readJson_returned h) fun hset => absurd hset h

end Bodies

section Answers

variable {parse : Bytes → Option Tree} {integer : Double → Int}

theorem isSome_bind_iff {α β : Type} {x : Option α} {f : α → Option β} {p : Prop} (h : ∀ a, (f a).isSome ↔ p) :
    (x >>= f).isSome ↔ x.isSome ∧ p := by
  cases x with
  | none => exact iff_of_false (by rintro ⟨⟩) fun hp => nomatch hp.1
  | some a => exact (h a).trans (and_iff_right rfl).symm

theorem isSome_mapM_iff {α β : Type} {f : α → Option β} {l : List α} :
    (l.mapM f).isSome ↔ ∀ a ∈ l, (f a).isSome := by
  induction l with
  | nil => exact iff_of_true rfl (List.forall_mem_nil _)
  | cons a l ih =>
    rw [List.mapM_cons, List.forall_mem_cons, ← ih]
    exact isSome_bind_iff fun _ => (isSome_bind_iff fun _ => iff_of_true rfl trivial).trans (iff_of_eq (and_true _))

/-- The tree has strings and numbers of these names. -/
def Complete (strings numbers : List String) (node : Tree) : Prop :=
  (∀ name ∈ strings, (node.getString name).isSome) ∧ ∀ name ∈ numbers, (node.getNumber name).isSome

/-- The elements of an array are complete, if it is there. -/
def EachComplete (array : String) (strings numbers : List String) (node : Tree) : Prop :=
  ∀ values, node.getArray array = some values → ∀ val ∈ values, Complete strings numbers val

structure QuotationComplete (node : Tree) : Prop where
  numbers : Complete [] ["expire","compressThreshold"] node
  policies : EachComplete "limitPolicies" [] ["min","max","limit"] node
  timeouts : EachComplete "timeouts" ["interfaceName"] ["timeout","tries"] node
  limitsLength : EachComplete "limitsLength" ["interfaceName"] ["keylen","vallen","datalen"] node

theorem getInt_isSome {name : String} {node : Tree} :
    (getInt integer name node).isSome ↔ (node.getNumber name).isSome := by
  rw [getInt, Option.isSome_map]

theorem readLimitPolicy_isSome {val : Tree} :
    (readLimitPolicy integer val).isSome ↔ Complete [] ["min","max","limit"] val := by
  refine (isSome_bind_iff fun _ => isSome_bind_iff fun _ => isSome_bind_iff fun _ => iff_of_true rfl trivial).trans ?_
  simp [Complete, getInt_isSome]

theorem readTimeout_isSome {val : Tree} :
    (readTimeout integer val).isSome ↔ Complete ["interfaceName"] ["timeout","tries"] val := by
  refine (isSome_bind_iff fun _ => isSome_bind_iff fun _ => isSome_bind_iff fun _ => iff_of_true rfl trivial).trans ?_
  simp [Complete, getInt_isSome]

theorem readLimitsLength_isSome {val : Tree} :
    (readLimitsLength integer val).isSome ↔ Complete ["interfaceName"] ["keylen","vallen","datalen"] val := by
  refine (isSome_bind_iff fun _ => isSome_bind_iff fun _ => isSome_bind_iff fun _ => isSome_bind_iff fun _ =>
    iff_of_true rfl trivial).trans ?_
  simp [Complete, getInt_isSome]

theorem readOptional_isSome {α : Type} {read : Tree → Option α} {strings numbers : List String}
    (hread : ∀ val, (read val).isSome ↔ Complete strings numbers val) (array : String) (node : Tree) :
    (readOptional read array node).isSome ↔ EachComplete array strings numbers node := by
  rw [readOptional, isSome_mapM_iff, EachComplete]
  cases node.getArray array with
  | none => exact iff_of_true (List.forall_mem_nil _) fun _ h => nomatch h
  | some values => simp [hread]

theorem readQuotation_isSome (integer : Double → Int) {node : Tree} :
    (readQuotation integer node).isSome ↔ QuotationComplete node := by
  refine (isSome_bind_iff fun _ => isSome_bind_iff fun _ => isSome_bind_iff fun _ => isSome_bind_iff fun _ =>
    isSome_bind_iff fun _ => iff_of_true rfl trivial).trans ?_
  rw [getInt_isSome, getInt_isSome, readOptional_isSome fun _ => readLimitPolicy_isSome,
    readOptional_isSome fun _ => readTimeout_isSome, readOptional_isSome fun _ => readLimitsLength_isSome]
  constructor
  · rintro ⟨hexpire,hthreshold,hpolicies,htimeouts,hlimits,-⟩
    exact ⟨⟨List.forall_mem_nil _,by simp [hexpire, hthreshold]⟩,hpolicies,htimeouts,hlimits⟩
  · intro h
    have hnumbers := h.numbers.2
    exact ⟨hnumbers _ (by simp),hnumbers _ (by simp),h.policies,h.timeouts,h.limitsLength,trivial⟩

theorem readQuotation_cases (integer : Double → Int) (node : Tree) :
    (QuotationComplete node ∧ ∃ q, readQuotation integer node = some q) ∨
      ¬ QuotationComplete node ∧ readQuotation integer node = none := by
  rw [← readQuotation_isSome integer, ← Option.isSome_iff_exists, and_self, ← Option.not_isSome_iff_eq_none, and_self]
  exact em _

/-- The quotation is there and complete, in place or as a text. -/
def QuotationGiven (parse : Bytes → Option Tree) : Option Tree → Prop
  | some (.object members) => QuotationComplete (.object members)
  | some (.string s) => ∃ node, parse (cStr s) = some node ∧ QuotationComplete node
  | _ => False

theorem readACLQuotation_cases (quotation : Option Tree) :
    (QuotationGiven parse quotation ∧ ∃ q, readACLQuotation parse integer quotation = .ok q) ∨
    ¬ QuotationGiven parse quotation ∧ ∃ freed, readACLQuotation parse integer quotation = .error freed ∧
      (freed = true ↔ ∃ members, quotation = some (.object members)) := by
  unfold readACLQuotation
  split
  · rename_i members
    rcases readQuotation_cases integer (.object members) with ⟨hcomplete,q,hq⟩ | ⟨hincomplete,hnone⟩
    · exact .inl ⟨hcomplete,q,by rw [hq]; rfl⟩
    · exact .inr ⟨hincomplete,true,by rw [hnone]; rfl,iff_of_true rfl ⟨members,rfl⟩⟩
  · rename_i s
    have hobject : false = true ↔ ∃ members, some (Tree.string s) = some (.object members) := by
      refine iff_of_false Bool.false_ne_true ?_
      rintro ⟨members,hmembers⟩
      cases hmembers
    split
    · rename_i hparse
      refine .inr ⟨?_,false,rfl,hobject⟩
      rintro ⟨node,hnode,-⟩
      cases hparse.symm.trans hnode
    · rename_i node hparse
      rcases readQuotation_cases integer node with ⟨hcomplete,q,hq⟩ | ⟨hincomplete,hnone⟩
      · exact .inl ⟨⟨node,hparse,hcomplete⟩,q,by rw [hq]; rfl⟩
      · refine .inr ⟨?_,false,by rw [hnone]; rfl,hobject⟩
        rintro ⟨other,hother,hcomplete⟩
        cases hparse.symm.trans hother
        exact hincomplete hcomplete
  · rename_i hobject hstring
    have hnot : ¬ ∃ members, quotation = some (.object members) := fun ⟨members,h⟩ => hobject members h
    refine .inr ⟨fun h => ?_,false,rfl,iff_of_false Bool.false_ne_true hnot⟩
    unfold QuotationGiven at h
    split at h
    · exact hobject _ rfl
    · exact hstring _ rfl
    · exact h

def AllStrings (members : List (Bytes × Tree)) : Prop := ∀ member ∈ members, ∃ s, member.2 = .string s

theorem readRoutes_ok_iff (members : List (Bytes × Tree)) (routes : List (Bytes × Bytes)) :
    (∃ r, readRoutes members routes = .ok r) ↔ AllStrings members := by
  induction members generalizing routes with
  | nil => exact iff_of_true ⟨routes,rfl⟩ (List.forall_mem_nil _)
  | cons member members ih =>
    obtain ⟨key,val⟩ := member
    rw [AllStrings, List.forall_mem_cons]
    cases val with
    | string s => exact (ih _).trans (and_iff_right ⟨s,rfl⟩).symm
    | _ =>
      refine iff_of_false ?_ ?_
      · rintro ⟨r,hr⟩
        cases hr
      · rintro ⟨⟨s,hs⟩,-⟩
        cases hs

structure RouteReadable (route : Tree) : Prop where
  defaults : (route.getString "default").isSome
  client : ∀ client, route.getObject "client" = some client → AllStrings client
  server : ∀ client server, route.getObject "client" = some client → route.getObject "server" = some server →
    AllStrings server

theorem exists_bind_ok {ε α β : Type} {x : Except ε α} {f : α → Except ε β} {p : Prop}
    (h : ∀ a, (∃ b, f a = .ok b) ↔ p) : (∃ b, x >>= f = .ok b) ↔ (∃ a, x = .ok a) ∧ p := by
  cases x with
  | error e => exact iff_of_false (fun ⟨b,hb⟩ => nomatch hb) fun hp => nomatch hp.1
  | ok a => exact (h a).trans (and_iff_right ⟨a,rfl⟩).symm

theorem readServers_ok_iff {defaults : Bytes} {mapClient : List (Bytes × Bytes)}
    (servers : Option (List (Bytes × Tree))) : (∃ r, readRoute.readServers defaults mapClient servers = .ok r) ↔
      ∀ server, servers = some server → AllStrings server := by
  cases servers with
  | none => exact iff_of_true ⟨none,rfl⟩ fun _ h => nomatch h
  | some server =>
    refine (exists_bind_ok fun mapServer => iff_of_true ⟨_,rfl⟩ trivial).trans ?_
    rw [readRoutes_ok_iff, and_true]
    exact ⟨fun h server' heq => Option.some.inj heq ▸ h,fun h => h server rfl⟩

theorem readRoute_ok_iff (route : Tree) : (∃ r, readRoute route = .ok r) ↔ RouteReadable route := by
  unfold readRoute
  cases hdefaults : route.getString "default" with
  | none =>
    refine iff_of_false (fun ⟨r,hr⟩ => nomatch hr) fun h => ?_
    have hsome := h.defaults
    rw [hdefaults] at hsome
    cases hsome
  | some defaults =>
    have hisSome : (route.getString "default").isSome := by rw [hdefaults]; rfl
    cases hclient : route.getObject "client" with
    | none =>
      refine iff_of_true ⟨none,rfl⟩ ⟨hisSome,?_,?_⟩
      · intro client h
        rw [hclient] at h
        cases h
      · intro client server h
        rw [hclient] at h
        cases h
    | some client =>
      refine (exists_bind_ok fun _ => readServers_ok_iff _).trans ?_
      rw [readRoutes_ok_iff]
      constructor
      · rintro ⟨hstrings,hservers⟩
        refine ⟨hisSome,?_,fun _ server _ h => hservers server h⟩
        intro client' h
        cases hclient.symm.trans h
        exact hstrings
      · exact fun h => ⟨h.client client hclient,fun server => h.server client server hclient⟩

/-- An answer with both numbers has no incomplete object as its quotation, and when its quotation is complete, its
route is one that can be read. -/
def ResponseReadable (parse : Bytes → Option Tree) (node : Tree) : Prop :=
  Complete [] ["uri_id","operation"] node →
    (∀ members, quotationOf node = some (.object members) → QuotationComplete (.object members)) ∧
      (QuotationGiven parse (quotationOf node) → RouteReadable (routeOf node))

theorem complete_uriId_operation (integer : Double → Int) {node : Tree} : Complete [] ["uri_id","operation"] node ↔
    (getInt integer "uri_id" node).isSome ∧ (getInt integer "operation" node).isSome := by
  simp [Complete, getInt_isSome]

theorem quotation_route_ok_iff {node : Tree} {uriId operation : Int}
    (huriId : getInt integer "uri_id" node = some uriId)
    (hoperation : getInt integer "operation" node = some operation) :
    (∃ answer, readACLResponse parse integer (some node) = .ok answer) ↔
      (∀ members, quotationOf node = some (.object members) → QuotationComplete (.object members)) ∧
        (QuotationGiven parse (quotationOf node) → RouteReadable (routeOf node)) := by
  simp only [readACLResponse, huriId, hoperation]
  rcases readACLQuotation_cases (quotationOf node) with ⟨hgiven,q,hq⟩ | ⟨hnot,freed,hfreed,hobject⟩
  · have hcomplete (members : List (Bytes × Tree)) (h : quotationOf node = some (.object members)) :
        QuotationComplete (.object members) := by
      rw [h] at hgiven
      exact hgiven
    rw [hq]
    refine (exists_bind_ok fun _ => iff_of_true ⟨_,rfl⟩ trivial).trans ?_
    rw [readRoute_ok_iff, and_true]
    exact ⟨fun h => ⟨hcomplete,fun _ => h⟩,fun h => h.2 hgiven⟩
  · rw [hfreed]
    cases freed with
    | true =>
      obtain ⟨members,hmembers⟩ := hobject.mp rfl
      refine iff_of_false (fun ⟨answer,h⟩ => nomatch h) fun h => hnot ?_
      rw [hmembers]
      exact h.1 members hmembers
    | false =>
      refine iff_of_true ⟨none,rfl⟩ ⟨fun members h => ?_,fun hgiven => absurd hgiven hnot⟩
      exact absurd (hobject.mpr ⟨members,h⟩) Bool.false_ne_true

theorem readACLResponse_ok_iff (response : Option Tree) :
    (∃ answer, readACLResponse parse integer response = .ok answer) ↔
      ∀ node ∈ response, ResponseReadable parse node := by
  cases response with
  | none => exact iff_of_true ⟨none,rfl⟩ fun _ h => nomatch h
  | some node =>
    simp only [Option.mem_def, Option.some.injEq, forall_eq']
    rw [ResponseReadable, complete_uriId_operation integer]
    cases huriId : getInt integer "uri_id" node with
    | none =>
      refine iff_of_true ⟨none,?_⟩ fun h => nomatch h.1
      simp only [readACLResponse, huriId]
    | some uriId =>
      cases hoperation : getInt integer "operation" node with
      | none =>
        refine iff_of_true ⟨none,?_⟩ fun h => nomatch h.2
        simp only [readACLResponse, huriId, hoperation]
      | some operation =>
        rw [quotation_route_ok_iff huriId hoperation]
        exact ⟨fun h _ => h,fun h => h ⟨rfl,rfl⟩⟩

end Answers

/-- Every document is parsed or refused exactly when a body has only strings where members of a set are read, and an
answer of the authority has a route with strings only behind a complete quotation. -/
theorem documents_returned_iff (node : Option Tree) (request : Request) (parse : Bytes → Option Tree)
    (integer : Double → Int) (response : Option Tree) :
    (Returned (readJson node request) ↔ BodyReadable node request) ∧
      ((∃ answer, readACLResponse parse integer response = .ok answer) ↔
        ∀ answer ∈ response, ResponseReadable parse answer) :=
  ⟨readJson_returned_iff,readACLResponse_ok_iff response⟩

/-- A set with a number as its member, with the strings that are asked for. -/
def numberMember : Tree := .object [(text "uri",.string (text "redis://kvstore/ab")),(text "ak",.string (text "app")),
  (text "k",.string (text "s")),(text "mbs",.array [.number (.finite 1)])]

def answerWith (quotation route : List (Bytes × Tree)) : Tree := .object [(text "uri_id",.number (.finite 1)),
  (text "operation",.number (.finite 3)),(text "quotation",.object quotation),(text "route",.object route)]

def shortQuotation : List (Bytes × Tree) :=
  [(text "expire",.number (.finite 60)),(text "compressThreshold",.number (.finite 1))]

theorem documents_fatal :
    readJson (some numberMember) (Request.opened .sadd) = none ∧
    readJson (some numberMember) (Request.opened .srem) = none ∧
    readACLResponse (fun _ => none) (fun _ => 1) (some (answerWith shortQuotation [])) = .error .nullString ∧
    readACLResponse (fun _ => none) (fun _ => 1) (some (answerWith shortQuotation
      [(text "default",.string (text "10.0.0.1:6379")),
        (text "client",.object [(text "10.100",.number (.finite 1))])])) = .error .nullString ∧
    readACLResponse (fun _ => none) (fun _ => 1) (some (answerWith [] [])) = .error .doubleFree := by
  refine ⟨?_,?_,?_,?_,?_⟩ <;> rfl

end QkPack

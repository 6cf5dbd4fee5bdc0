import QkPack.Lib.JsonText

/-!
# The query to the authority

`GetCurlResponse` of qkpack_acl.cc posts a document that it puts together from the access key and the uri as
they are.
-/

namespace QkPack
open Wire Json

/-- The document that `GetCurlResponse` posts. -/
def postedData (ak uri : Bytes) : Bytes :=
  text "\x7b\"app_key\":\"" ++ ak ++ text "\",\"uri\":\"" ++ uri ++ text "\"\x7d"

def aclQuery (ak uri : Bytes) : List (Bytes × Tree) :=
  [(text "app_key",.string ak),(text "uri",.string uri)]

variable {ak uri : Bytes}

theorem postedData_eq (ak uri : Bytes) :
    postedData ak uri =
      123 :: 34 :: (text "app_key" ++ 34 :: 58 :: 34 :: (ak ++ 34 :: 44 :: 34 ::
        (text "uri" ++ 34 :: 58 :: 34 :: (uri ++ 34 :: [125])))) := by
  rw [postedData, List.append_assoc, List.append_assoc, List.append_assoc]
  rfl

theorem plain_app_key : Plain (text "app_key") := by decide

theorem plain_uri : Plain (text "uri") := by decide

theorem postedData_length (ak uri : Bytes) : ∃ n, (postedData ak uri).length = n + 4 := by
  rw [postedData_eq]
  exact ⟨_,rfl⟩

theorem parse_postedData (hak : Plain ak) (huri : Plain uri) :
    parse (postedData ak uri) = some (.object (aclQuery ak uri)) := by
  obtain ⟨n,hn⟩ := postedData_length ak uri
  have hread : readValue (n + 5) (postedData ak uri) = some (.object (aclQuery ak uri),[]) := by
    rw [postedData_eq, readValue_object, readMembers_comma plain_app_key (readString_plain hak),
      readMembers_last plain_uri (readString_plain huri)]
    rfl
  rw [parse, hn, hread]
  rfl

theorem readStringFrom_comma {n : Nat} {s t rest : Bytes}
    (h : readStringFrom n (44 :: 34 :: s) = some (t,rest)) : t = [44] := by
  match n with
  | 0 | 1 => cases h
  | n + 2 =>
    cases h
    rfl

theorem plain_of_parse {members : List (Bytes × Tree)}
    (h : parse (postedData ak uri) = some (.object members)) (hmembers : members.Perm (aclQuery ak uri)) :
    Plain ak ∧ Plain uri := by
  obtain ⟨n,hn⟩ := postedData_length ak uri
  obtain ⟨rest,hvalue⟩ := parse_eq_some h
  rw [hn, postedData_eq, readValue_object] at hvalue
  obtain ⟨⟨members',rest'⟩,hread,heq⟩ := Option.map_eq_some_iff.mp hvalue
  cases heq
  obtain ⟨t,rest₁,others,hstring,rfl⟩ := readMembers_first plain_app_key hread
  -- the other member has another name
  have hfirst : (text "app_key",Tree.string t) = (text "app_key",Tree.string ak) := by
    have hmem := hmembers.subset List.mem_cons_self
    simp only [aclQuery, List.mem_cons, List.not_mem_nil, or_false] at hmem
    rcases hmem with hmem | hmem
    · exact hmem
    · have hname : text "app_key" = text "uri" := congrArg Prod.fst hmem
      exact absurd hname (by decide)
  cases hfirst
  have hothers : others = [(text "uri",.string uri)] := List.perm_singleton.mp (List.perm_cons _ |>.mp hmembers)
  subst hothers
  obtain ⟨hak,rfl⟩ := plain_of_readString hstring fun m back hback =>
    ⟨44,by rw [readStringFrom_comma hback, List.getLast?_singleton],by decide⟩
  refine ⟨hak,?_⟩
  rw [readMembers_comma plain_app_key hstring] at hread
  obtain ⟨⟨members',rest'⟩,hlast,heq⟩ := Option.map_eq_some_iff.mp hread
  obtain ⟨t,rest₂,others,hstring,rfl⟩ := readMembers_first plain_uri hlast
  cases heq
  refine (plain_of_readString hstring fun m back hback => ?_).1
  match m with
  | 0 | 1 | m + 2 => cases hback

/-- The authority is asked about the access key and the uri of the client exactly if neither has a quote, a
backslash or a control byte. -/
theorem posted_data_faithful_iff (ak uri : Bytes) :
    (∃ members, parse (postedData ak uri) = some (.object members) ∧ members.Perm (aclQuery ak uri)) ↔
      Plain ak ∧ Plain uri := by
  constructor
  · rintro ⟨members,hparse,hmembers⟩
    exact plain_of_parse hparse hmembers
  · rintro ⟨hak,huri⟩
    exact ⟨_,parse_postedData hak huri,List.Perm.refl _⟩

/-- An access key that closes its string and opens another member. -/
def twoKeys (x y : Bytes) : Bytes := x ++ text "\",\"app_key\":\"" ++ y

theorem parse_twoKeys {x y : Bytes} (hx : Plain x) (hy : Plain y) (huri : Plain uri) :
    parse (postedData (twoKeys x y) uri) = some (.object ((text "app_key",.string x) :: aclQuery y uri)) := by
  obtain ⟨n,hn⟩ := postedData_length (twoKeys x y) uri
  have hread : readValue (n + 5) (postedData (twoKeys x y) uri) =
      some (.object ((text "app_key",.string x) :: aclQuery y uri),[]) := by
    have heq : twoKeys x y ++ 34 :: 44 :: 34 :: (text "uri" ++ 34 :: 58 :: 34 :: (uri ++ 34 :: [125])) =
        x ++ 34 :: 44 :: 34 :: (text "app_key" ++ 34 :: 58 :: 34 :: (y ++ 34 :: 44 :: 34 ::
          (text "uri" ++ 34 :: 58 :: 34 :: (uri ++ 34 :: [125])))) := by
      rw [twoKeys, List.append_assoc, List.append_assoc]
      rfl
    rw [postedData_eq, heq, readValue_object, readMembers_comma plain_app_key (readString_plain hx),
      readMembers_comma plain_app_key (readString_plain hy), readMembers_last plain_uri (readString_plain huri)]
    rfl
  rw [parse, hn, hread]
  rfl

theorem posted_data_two_keys :
    parse (postedData (twoKeys (text "x") (text "y")) (text "qkd://BJ/ab")) =
        some (.object [(text "app_key",.string (text "x")),(text "app_key",.string (text "y")),
          (text "uri",.string (text "qkd://BJ/ab"))]) ∧
      ¬ ∃ members, parse (postedData (twoKeys (text "x") (text "y")) (text "qkd://BJ/ab")) = some (.object members) ∧
        members.Perm (aclQuery (twoKeys (text "x") (text "y")) (text "qkd://BJ/ab")) := by
  have hparse : parse (postedData (twoKeys (text "x") (text "y")) (text "qkd://BJ/ab")) =
      some (.object ((text "app_key",.string (text "x")) :: aclQuery (text "y") (text "qkd://BJ/ab"))) := by
    apply parse_twoKeys <;> decide
  refine ⟨hparse,?_⟩
  rintro ⟨members,hmembers,hperm⟩
  rw [hparse] at hmembers
  cases hmembers
  exact absurd hperm.length_eq (by decide)

end QkPack

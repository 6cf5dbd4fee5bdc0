import QkPack.Core.Request
import QkPack.Protocol.Decode

/-!
# Redirections

`RedisCluster::ProcessMoved` reads the node out of a `MOVED` or `ASK` line and, for `MOVED`, enters it
into the slot table of the cluster.
-/

namespace QkPack
open Wire CString Resp

/-- `map_cluster_`. -/
abbrev ClusterMap := Bytes → Int → Option Bytes

/-- The pieces between occurrences of `sep`; `skip` bytes of an occurrence are still to be passed. -/
def splitFrom (sep : Bytes) : Bytes → Nat → Bytes → List Bytes
  | piece, _, [] => [piece]
  | piece, skip + 1, _ :: s => splitFrom sep piece skip s
  | piece, 0, c :: s =>
    if sep.isPrefixOf (c :: s) then piece :: splitFrom sep [] (sep.length - 1) s
    else splitFrom sep (piece ++ [c]) 0 s

/-- `StringUtil::Split`, which leaves out empty pieces. -/
def split (s sep : Bytes) : List Bytes := (splitFrom sep [] 0 s).filter (· ≠ [])

/-- `strtol (s,&end,10)` without `end`. -/
def strtol10 (s : Bytes) : Int :=
  let t := s.dropWhile isspace
  let digits (u : Bytes) : Int := digitsValue (u.takeWhile fun c => 48 ≤ c && c ≤ 57)
  clampLong (match t with
    | 45 :: u => -digits u
    | 43 :: u => digits u
    | u => digits u)

/-- `StrToInt32` of a C string into a variable that holds `value`; its return value is not looked at. -/
def strToInt32 (s : Bytes) (value : Int) : Int :=
  if cStr s = [] ∨ strtol10 s < -2 ^ 31 ∨ strtol10 s ≥ 2 ^ 31 then value else strtol10 s

/-- The node of a redirection in `ProcessMoved`, and whether it has an address and a port. -/
def movedNode (words : List Bytes) : Except DecodeFault (QkpackRc × Bytes) :=
  match (words[2]?).map fun s => split s crlf with
  | none => .error .badAccess
  | some [] => .error .badAccess
  | some (nodeIp :: _) =>
    match split nodeIp (text ":") with
    | [ip,port] =>
      if strToInt32 ip 0 ≤ 0 ∨ strToInt32 port 0 ≤ 0 then .ok (.error,nodeIp) else .ok (.ok,nodeIp)
    | _ => .ok (.error,nodeIp)

/-- `ProcessMoved`: the return value, the new `node_ip`, and the slot table. -/
def processMoved (reply clusterName nodeIp : Bytes) (status : RedisRc) (cluster : ClusterMap) :
    Except DecodeFault (QkpackRc × Bytes × ClusterMap) :=
  if status ≠ .moved ∧ status ≠ .ask then .ok (.ok,nodeIp,cluster)
  else
    let words := split reply (text " ")
    if words.length < 3 then .ok (.error,nodeIp,cluster)
    else do
      let (rc,node) ← movedNode words
      if rc = .ok ∧ status = .moved then
        let slotid := strToInt32 (words[1]?.getD []) (-1)
        return (.ok,node,fun name slot => if name = clusterName ∧ slot = slotid then some node
          else cluster name slot)
      else return (rc,node,cluster)

example : split (text "-MOVED 1 10.0.0.2:7000" ++ crlf) (text " ") =
    [text "-MOVED",text "1",text "10.0.0.2:7000" ++ crlf] := by decide

end QkPack

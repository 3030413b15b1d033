import TorrentNG.BencodeCanonical
import TorrentNG.Chunks
import TorrentNG.DhtNodes

/-!
# KRPC messages

The messages of the distributed hash table are dictionaries. An encoder writes their keys in
order, leaving out what is empty, and a parser that knows nothing of the encoder looks them up.
Nodes and peers are written as bytes of a fixed size each.

Encoding gives a canonical dictionary for every message. Parsing it gives the message back,
except that an IPv6 address has no flow and scope then, and that a list of wanted families
is refused if it names one twice.
-/

namespace TorrentNG.Dht

open Bencode Chunks Fallible FixedWidth List MachineArithmetic Reading Utf8

inductive KrpcError where
  | bencode (error : BencodeError)
  | invalid (message : String)
  | unsupportedQuery (name : Text)
deriving DecidableEq

/-! ## Messages -/

/-- `[u8; 20]`. -/
abbrev Bytes20 := { bytes : Bytes // bytes.length = 20 }

def NodeId.fromBytes (bytes : Bytes20) : NodeId := ⟨bytes.val, bytes.property⟩

inductive DhtWant where
  | ipv4
  | ipv6
deriving DecidableEq

inductive DhtQuery where
  | ping (id : NodeId)
  | findNode (id target : NodeId)
  | findNodeWithWant (id target : NodeId) (want : List DhtWant)
  | getPeers (id : NodeId) (infoHash : Bytes20)
  | getPeersWithWant (id : NodeId) (infoHash : Bytes20) (want : List DhtWant)
  | announcePeer (id : NodeId) (impliedPort : Bool) (infoHash : Bytes20) (port : UInt16)
      (token : Bytes)
deriving DecidableEq

def DhtQuery.name : DhtQuery → Bytes
  | .ping .. => ascii "ping"
  | .findNode .. => ascii "find_node"
  | .findNodeWithWant .. => ascii "find_node"
  | .getPeers .. => ascii "get_peers"
  | .getPeersWithWant .. => ascii "get_peers"
  | .announcePeer .. => ascii "announce_peer"

inductive SocketAddr where
  | v4 (addr : SocketAddrV4)
  | v6 (addr : SocketAddrV6)
deriving DecidableEq

structure DhtResponse where
  id : NodeId
  nodes : List KNode
  nodes6 : List KNode6
  values : List SocketAddr
  token : Option Bytes
deriving DecidableEq

structure DhtError where
  code : Int64
  message : Text
deriving DecidableEq

inductive KrpcMessage where
  | query (transactionId : Bytes) (query : DhtQuery)
  | response (transactionId : Bytes) (response : DhtResponse)
  | error (transactionId : Bytes) (error : DhtError)
deriving DecidableEq

/-! ## Compact nodes and peers -/

/-- An array of zeros with a slice copied into it. -/
def copied (width : Nat) (bytes : Bytes) : Bytes :=
  (bytes ++ List.replicate width 0).take width

theorem length_copied (width : Nat) (bytes : Bytes) : (copied width bytes).length = width := by
  rw [copied, length_take, length_append, length_replicate]
  omega

theorem copied_of_length {width : Nat} {bytes : Bytes} (sized : bytes.length = width) :
    copied width bytes = bytes :=
  take_left' sized

variable (bytes : Bytes)

def copiedId : NodeId := ⟨copied 20 bytes, length_copied 20 bytes⟩

def copiedV4 : Ipv4Addr := ⟨copied 4 bytes, length_copied 4 bytes⟩

def copiedV6 : Ipv6Addr := ⟨copied 16 bytes, length_copied 16 bytes⟩

def SocketAddrV6.new (ip : Ipv6Addr) (port : UInt16) (flowinfo scopeId : UInt32) : SocketAddrV6 :=
  { ip, port, flowinfo, scopeId }

def compactNode (node : KNode) : Bytes :=
  node.id.bytes ++ (node.addr.ip.octets ++ be16 node.addr.port)

def encodeCompactNodes (nodes : List KNode) : Bytes := nodes.flatMap compactNode

def parseCompactNodes : Except KrpcError (List KNode) :=
  if bytes.length % 26 ≠ 0 then .error (.invalid "compact nodes length is not a multiple of 26")
  else .ok ((exactChunks 26 bytes).map fun chunk =>
    { id := copiedId (slice chunk 0 20)
      addr := { ip := copiedV4 (slice chunk 20 24), port := ofBe16 (slice chunk 24 26) } })

variable (node : KNode6)

def compactNode6 : Bytes :=
  node.id.bytes ++ (node.addr.ip.octets ++ be16 node.addr.port)

def encodeCompactNodes6 (nodes : List KNode6) : Bytes := nodes.flatMap compactNode6

def parseCompactNodes6 : Except KrpcError (List KNode6) :=
  if bytes.length % 38 ≠ 0 then
    .error (.invalid "compact IPv6 nodes length is not a multiple of 38")
  else .ok ((exactChunks 38 bytes).map fun chunk =>
    { id := copiedId (slice chunk 0 20)
      addr := .new (copiedV6 (slice chunk 20 36)) (ofBe16 (slice chunk 36 38)) 0 0 })

def compactPeer : SocketAddr → Bytes
  | .v4 addr => addr.ip.octets ++ be16 addr.port
  | .v6 addr => addr.ip.octets ++ be16 addr.port

def encodeCompactPeerValues (peers : List SocketAddr) : List Bytes := peers.map compactPeer

def parseCompactPeerValue : Except KrpcError SocketAddr :=
  if bytes.length = 6 then
    .ok (.v4 { ip := copiedV4 (slice bytes 0 4), port := ofBe16 (slice bytes 4 6) })
  else if bytes.length = 18 then
    .ok (.v6 (.new (copiedV6 (slice bytes 0 16)) (ofBe16 (slice bytes 16 18)) 0 0))
  else .error (.invalid "compact peer value must contain exactly one IPv4 or IPv6 peer")

/-! ## Encoding -/

/-- The fields of a dictionary that are there. -/
def present (fields : List (Bytes × Option BValue)) : Pairs :=
  fields.filterMap fun field => field.2.map (field.1, ·)

def wantBytes : DhtWant → Bytes
  | .ipv4 => ascii "n4"
  | .ipv6 => ascii "n6"

def wantValue (want : List DhtWant) : BValue := .list (want.map fun family => .bytes (wantBytes family))

/-- The arguments of a query after its identifier. -/
def queryArgs : DhtQuery → Pairs
  | .ping _ => []
  | .findNode _ target => [(ascii "target", .bytes target.bytes)]
  | .findNodeWithWant _ target want =>
    [(ascii "target", .bytes target.bytes), (ascii "want", wantValue want)]
  | .getPeers _ infoHash => [(ascii "info_hash", .bytes infoHash.val)]
  | .getPeersWithWant _ infoHash want =>
    [(ascii "info_hash", .bytes infoHash.val), (ascii "want", wantValue want)]
  | .announcePeer _ impliedPort infoHash port token =>
    [(ascii "implied_port", .int (if impliedPort then 1 else 0)),
      (ascii "info_hash", .bytes infoHash.val),
      (ascii "port", .int (Int64.ofInt port.toNat)),
      (ascii "token", .bytes token)]

def queryId : DhtQuery → NodeId
  | .ping id | .findNode id _ | .findNodeWithWant id _ _ | .getPeers id _
  | .getPeersWithWant id _ _ | .announcePeer id _ _ _ _ => id

variable (transactionId : Bytes) (query : DhtQuery)

def queryValue : BValue :=
  .dict
    [(ascii "a", .dict ((ascii "id", .bytes (queryId query).bytes) :: queryArgs query)),
      (ascii "q", .bytes query.name),
      (ascii "t", .bytes transactionId),
      (ascii "y", .bytes (ascii "q"))]

variable (response : DhtResponse)

def responseFields : List (Bytes × Option BValue) :=
  let nodes := encodeCompactNodes response.nodes
  let nodes6 := encodeCompactNodes6 response.nodes6
  let compactValues := encodeCompactPeerValues response.values
  [(ascii "id", some (.bytes response.id.bytes)),
    (ascii "nodes", if nodes.isEmpty then none else some (.bytes nodes)),
    (ascii "nodes6", if nodes6.isEmpty then none else some (.bytes nodes6)),
    (ascii "token", response.token.map .bytes),
    (ascii "values", if compactValues.isEmpty then none else some (.list (compactValues.map .bytes)))]

def responseValue : BValue :=
  .dict
    [(ascii "r", .dict (present (responseFields response))),
      (ascii "t", .bytes transactionId),
      (ascii "y", .bytes (ascii "r"))]

def errorValue (error : DhtError) : BValue :=
  .dict
    [(ascii "e", .list [.int error.code, .bytes (Utf8.encode error.message)]),
      (ascii "t", .bytes transactionId),
      (ascii "y", .bytes (ascii "e"))]

namespace KrpcMessage

/-- The value that a message is encoded as. -/
def value : KrpcMessage → BValue
  | .query transactionId asked => queryValue transactionId asked
  | .response transactionId answer => responseValue transactionId answer
  | .error transactionId problem => errorValue transactionId problem

def encode (message : KrpcMessage) : Bytes := Bencode.encode message.value

end KrpcMessage

/-! ## Parsing -/

variable (value : BValue) (key : Bytes)

def requiredBytes : Except KrpcError Bytes :=
  okOr ((value.get key).bind BValue.asBytes) (.invalid "missing or invalid bytes field")

def requiredValueBytes : Except KrpcError Bytes :=
  okOr value.asBytes (.invalid "expected bytes value")

def requiredInt : Except KrpcError Int64 :=
  okOr ((value.get key).bind BValue.asInt) (.invalid "missing or invalid int field")

def optionalInt : Option Int64 :=
  (value.get key).bind BValue.asInt

def parse20 : Except KrpcError Bytes20 :=
  if sized : bytes.length = 20 then .ok ⟨bytes, sized⟩ else .error (.invalid "expected 20 bytes")

def parseNodeId : Except KrpcError NodeId := do
  let bytes ← parse20 bytes
  .ok (.fromBytes bytes)

def parsePort (port : Int64) : Except KrpcError UInt16 :=
  if 0 ≤ port.toInt ∧ port.toInt < 2 ^ 16 then .ok (UInt16.ofNat port.toInt.toNat)
  else .error (.invalid "invalid port")

/-- The loop of `parse_want`, with the families so far. -/
def parseWantEntries (want : List DhtWant) : List BValue → Except KrpcError (List DhtWant)
  | [] => .ok want
  | item :: rest => do
    let bytes ← okOr item.asBytes (.invalid "want entries must be bytes")
    let family ←
      if bytes = ascii "n4" then .ok .ipv4
      else if bytes = ascii "n6" then .ok .ipv6
      else .error (.invalid "want entry must be n4 or n6")
    if family ∈ want then .error (.invalid "want contains a duplicate family")
    else parseWantEntries (want ++ [family]) rest

def parseWant (args : BValue) : Except KrpcError (Option (List DhtWant)) :=
  match args.get (ascii "want") with
  | none => .ok none
  | some (.list items) =>
    if 2 < items.length then .error (.invalid "want contains too many address families")
    else (parseWantEntries [] items).map some
  | some _ => .error (.invalid "want must be a list")

/-- What `parse_query` does by the name of the query. -/
def parseQueryArgs (name : Text) (id : NodeId) (args : BValue) : Except KrpcError DhtQuery :=
  if name = "ping".toList then .ok (.ping id)
  else if name = "find_node".toList then do
    let targetBytes ← requiredBytes args (ascii "target")
    let target ← parseNodeId targetBytes
    let want ← parseWant args
    match want with
    | some want => .ok (.findNodeWithWant id target want)
    | none => .ok (.findNode id target)
  else if name = "get_peers".toList then do
    let infoHashBytes ← requiredBytes args (ascii "info_hash")
    let infoHash ← parse20 infoHashBytes
    let want ← parseWant args
    match want with
    | some want => .ok (.getPeersWithWant id infoHash want)
    | none => .ok (.getPeers id infoHash)
  else if name = "announce_peer".toList then do
    let impliedPort := (optionalInt args (ascii "implied_port")).getD 0 ≠ 0
    let infoHashBytes ← requiredBytes args (ascii "info_hash")
    let infoHash ← parse20 infoHashBytes
    let portNumber ← requiredInt args (ascii "port")
    let port ← parsePort portNumber
    let token ← requiredBytes args (ascii "token")
    .ok (.announcePeer id impliedPort infoHash port token)
  else .error (.unsupportedQuery name)

def parseQuery (transactionId : Bytes) : Except KrpcError KrpcMessage := do
  let bytes ← requiredBytes value (ascii "q")
  let name ← okOr (Utf8.decode bytes) (.invalid "query name is not utf-8")
  let args ← okOr (value.get (ascii "a")) (.invalid "missing query args")
  let idBytes ← requiredBytes args (ascii "id")
  let id ← parseNodeId idBytes
  let query ← parseQueryArgs name id args
  .ok (.query transactionId query)

/-- The loop over the values of a response. -/
def parseValues : List BValue → Except KrpcError (List SocketAddr)
  | [] => .ok []
  | item :: rest => do
    let bytes ← requiredValueBytes item
    let peer ← parseCompactPeerValue bytes
    let peers ← parseValues rest
    .ok (peer :: peers)

variable (r : BValue)

def nodesField : Except KrpcError (List KNode) :=
  match (r.get (ascii "nodes")).bind BValue.asBytes with
  | some bytes => parseCompactNodes bytes
  | none => .ok []

def nodes6Field : Except KrpcError (List KNode6) :=
  match (r.get (ascii "nodes6")).bind BValue.asBytes with
  | some bytes => parseCompactNodes6 bytes
  | none => .ok []

def valuesField : Except KrpcError (List SocketAddr) :=
  match r.get (ascii "values") with
  | some (.list items) => parseValues items
  | some _ => .error (.invalid "values must be a list")
  | none => .ok []

def parseResponse (transactionId : Bytes) : Except KrpcError KrpcMessage := do
  let r ← okOr (value.get (ascii "r")) (.invalid "missing response")
  let idBytes ← requiredBytes r (ascii "id")
  let id ← parseNodeId idBytes
  let nodes ← nodesField r
  let nodes6 ← nodes6Field r
  let values ← valuesField r
  let token := (r.get (ascii "token")).bind BValue.asBytes
  .ok (.response transactionId { id, nodes, nodes6, values, token })

def parseError (transactionId : Bytes) : Except KrpcError KrpcMessage :=
  match value.get (ascii "e") with
  | some (.list [first, second]) => do
    let code ← okOr first.asInt (.invalid "error code must be int")
    let message ← okOr second.asStr (.invalid "error message must be utf-8")
    .ok (.error transactionId { code, message })
  | some (.list _) => .error (.invalid "error list must have code and message")
  | _ => .error (.invalid "missing error list")

namespace KrpcMessage

/-- What `parse` does with the decoded value. -/
def ofValue (value : BValue) : Except KrpcError KrpcMessage := do
  let t ← requiredBytes value (ascii "t")
  let y ← requiredBytes value (ascii "y")
  if y = ascii "q" then parseQuery value t
  else if y = ascii "r" then parseResponse value t
  else if y = ascii "e" then parseError value t
  else .error (.invalid "unknown message type")

def parse (input : Bytes) : Except KrpcError KrpcMessage := do
  let value ← (Decoder.decode { input, strictDictKeys := false }).mapError .bencode
  ofValue value

end KrpcMessage

/-! ## Reading back what was written -/

/-- A node or peer address without the fields that its bytes do not have. -/
def SocketAddrV6.plain (addr : SocketAddrV6) : SocketAddrV6 :=
  { addr with flowinfo := 0, scopeId := 0 }

def plainNode : KNode6 := { node with addr := node.addr.plain }

def SocketAddr.plain : SocketAddr → SocketAddr
  | .v4 addr => .v4 addr
  | .v6 addr => .v6 addr.plain

/-- Parts of known lengths are cut out again. -/
theorem slice_parts (first : Bytes) {second : Bytes} (third : Bytes) (start : Nat) {stop : Nat}
    (length : Nat)
    (sized : first.length = start) (sizedSecond : start + second.length = stop)
    (sizedThird : stop + third.length = length) :
    slice (first ++ (second ++ third)) 0 start = first ∧
      slice (first ++ (second ++ third)) start stop = second ∧
      slice (first ++ (second ++ third)) stop length = third := by
  refine ⟨?_, ?_, ?_⟩
  · exact take_left' sized
  · rw [slice, drop_left' sized]
    exact take_left' (by omega)
  · have both : (first ++ second).length = stop := by
      rw [length_append, sized, sizedSecond]
    rw [slice, ← append_assoc, drop_left' both]
    exact take_of_length_le (by omega)

theorem copiedId_bytes (id : NodeId) : copiedId id.bytes = id := by
  simp only [copiedId, copied_of_length id.length_bytes]

theorem copiedV4_octets (ip : Ipv4Addr) : copiedV4 ip.octets = ip := by
  simp only [copiedV4, copied_of_length ip.length_octets]

theorem copiedV6_octets (ip : Ipv6Addr) : copiedV6 ip.octets = ip := by
  simp only [copiedV6, copied_of_length ip.length_octets]

theorem length_compactNode (node : KNode) : (compactNode node).length = 26 := by
  rw [compactNode, length_append, length_append, node.id.length_bytes,
    node.addr.ip.length_octets, length_be16]

theorem length_compactNode6 : (compactNode6 node).length = 38 := by
  rw [compactNode6, length_append, length_append, node.id.length_bytes,
    node.addr.ip.length_octets, length_be16]

/-- Records of one size are told apart, and each is read for itself. -/
theorem read_records {α β : Type} {size : Nat} (positive : 0 < size) {write : α → Bytes}
    (sized : ∀ record, (write record).length = size) {read : Bytes → β} {plain : α → β}
    (back : ∀ record, read (write record) = plain record) {problem : KrpcError}
    (records : List α) :
    (if (records.flatMap write).length % size ≠ 0 then .error problem
      else .ok ((exactChunks size (records.flatMap write)).map read)) =
      (.ok (records.map plain) : Except KrpcError (List β)) := by
  have multiple : (records.flatMap write).length % size = 0 := by
    simp [length_flatMap, sized]
  rw [if_neg (not_not.mpr multiple), exactChunks_flatMap positive sized, map_map]
  exact congrArg Except.ok (map_congr_left fun record _ => back record)

theorem parseCompactNodes_encode (nodes : List KNode) :
    parseCompactNodes (encodeCompactNodes nodes) = .ok nodes := by
  refine (read_records (by decide) length_compactNode (fun node => ?_) nodes).trans
    (congrArg Except.ok (map_id nodes))
  obtain ⟨idPart, ipPart, portPart⟩ := slice_parts node.id.bytes
    (be16 node.addr.port) 20 26 node.id.length_bytes
    (congrArg (20 + ·) node.addr.ip.length_octets) rfl
  simp only [compactNode, id_eq, idPart, ipPart, portPart, copiedId_bytes, copiedV4_octets,
    ofBe16_be16]

theorem parseCompactNodes6_encode (nodes : List KNode6) :
    parseCompactNodes6 (encodeCompactNodes6 nodes) = .ok (nodes.map plainNode) := by
  refine read_records (by decide) length_compactNode6 (fun node => ?_) nodes
  obtain ⟨idPart, ipPart, portPart⟩ := slice_parts node.id.bytes
    (be16 node.addr.port) 20 38 node.id.length_bytes
    (congrArg (20 + ·) node.addr.ip.length_octets) rfl
  simp only [compactNode6, idPart, ipPart, portPart, copiedId_bytes, copiedV6_octets, ofBe16_be16]
  rfl

theorem parseCompactPeerValue_compact (peer : SocketAddr) :
    parseCompactPeerValue (compactPeer peer) = .ok peer.plain := by
  cases peer with
  | v4 addr =>
    have sized : (compactPeer (.v4 addr)).length = 6 := by
      rw [compactPeer, length_append, addr.ip.length_octets, length_be16]
    obtain ⟨_, ipPart, portPart⟩ := slice_parts [] (be16 addr.port) 0 6 rfl
      ((Nat.zero_add _).trans addr.ip.length_octets) rfl
    rw [parseCompactPeerValue, if_pos sized, compactPeer]
    rw [nil_append] at ipPart portPart
    simp only [ipPart, portPart, copiedV4_octets, ofBe16_be16]
    rfl
  | v6 addr =>
    have sized : (compactPeer (.v6 addr)).length = 18 := by
      rw [compactPeer, length_append, addr.ip.length_octets, length_be16]
    obtain ⟨_, ipPart, portPart⟩ := slice_parts [] (be16 addr.port) 0 18 rfl
      ((Nat.zero_add _).trans addr.ip.length_octets) rfl
    rw [parseCompactPeerValue, if_neg (by rw [sized]; decide), if_pos sized, compactPeer]
    rw [nil_append] at ipPart portPart
    simp only [ipPart, portPart, copiedV6_octets, ofBe16_be16]
    rfl

/-! ## Looking up what was written -/

/-- A field of a response is found if it is there. -/
theorem get_present (id : BValue) (nodes nodes6 token values : Option BValue) :
    let r := BValue.dict (present [(ascii "id", some id), (ascii "nodes", nodes),
      (ascii "nodes6", nodes6), (ascii "token", token), (ascii "values", values)])
    r.get (ascii "nodes") = nodes ∧ r.get (ascii "nodes6") = nodes6 ∧
      r.get (ascii "token") = token ∧ r.get (ascii "values") = values := by
  cases nodes <;> cases nodes6 <;> cases token <;> cases values <;> exact ⟨rfl, rfl, rfl, rfl⟩

theorem parse20_val (bytes : Bytes20) : parse20 bytes.val = .ok bytes := dif_pos bytes.property

theorem parseNodeId_bytes (id : NodeId) : parseNodeId id.bytes = .ok id := by
  rw [parseNodeId, parse20, dif_pos id.length_bytes]
  rfl

theorem parsePort_toNat (port : UInt16) : parsePort (Int64.ofInt port.toNat) = .ok port := by
  have small := port.toNat_lt
  have integer : (Int64.ofInt (port.toNat : Int)).toInt = (port.toNat : Int) :=
    Int64.toInt_ofInt_of_le (by omega) (by omega)
  rw [parsePort, integer, if_pos (by omega), Int.toNat_natCast, UInt16.ofNat_toNat]

/-- The loop accepts exactly the families that are new each time. -/
theorem parseWantEntries_eq_ok (want seen result : List DhtWant) :
    parseWantEntries seen (want.map fun family => .bytes (wantBytes family)) = .ok result ↔
      result = seen ++ want ∧ want.Nodup ∧ seen.Disjoint want := by
  induction want generalizing seen with
  | nil =>
    rw [map_nil, parseWantEntries, Except.ok.injEq, append_nil]
    exact ⟨fun same => ⟨same.symm, nodup_nil, disjoint_nil_right seen⟩, fun all => all.1.symm⟩
  | cons family rest ih =>
    have read : parseWantEntries seen
        ((family :: rest).map fun family => .bytes (wantBytes family)) =
        if family ∈ seen then .error (.invalid "want contains a duplicate family")
        else parseWantEntries (seen ++ [family])
          (rest.map fun family => .bytes (wantBytes family)) := by
      cases family <;> rfl
    rw [read]
    split
    next known =>
      refine iff_of_false nofun fun all => ?_
      exact all.2.2 known (mem_cons_self ..)
    next known =>
      rw [ih, append_assoc, singleton_append, nodup_cons, disjoint_append_left, singleton_disjoint,
        disjoint_cons_right]
      constructor
      · rintro ⟨same, nodup, apart, unlisted⟩
        exact ⟨same, ⟨unlisted, nodup⟩, known, apart⟩
      · rintro ⟨same, ⟨unlisted, nodup⟩, _, apart⟩
        exact ⟨same, nodup, apart, unlisted⟩

theorem length_le_two_of_nodup {want : List DhtWant} (nodup : want.Nodup) : want.length ≤ 2 := by
  match want, nodup with
  | [], _ | [_], _ | [_, _], _ => simp
  | first :: second :: third :: rest, nodup =>
    cases first <;> cases second <;> cases third <;> simp at nodup

/-- The wanted families are read back exactly if none is named twice. -/
theorem parseWant_eq_ok (args : BValue) {want : List DhtWant}
    (found : args.get (ascii "want") = some (wantValue want)) (result : Option (List DhtWant)) :
    parseWant args = .ok result ↔ result = some want ∧ want.Nodup := by
  have entries := parseWantEntries_eq_ok want []
  rw [parseWant, found, wantValue]
  simp only [length_map]
  split
  next =>
    refine iff_of_false nofun fun both => ?_
    have few := length_le_two_of_nodup both.2
    omega
  next =>
    cases parsed : parseWantEntries [] (want.map fun family => .bytes (wantBytes family)) with
    | error problem =>
      refine iff_of_false nofun fun both => ?_
      have ok := (entries want).mpr ⟨rfl, both.2, disjoint_nil_left want⟩
      exact nomatch parsed.symm.trans ok
    | ok families =>
      obtain ⟨rfl, nodup, _⟩ := (entries families).mp parsed
      refine Except.ok.injEq .. |>.to_iff.trans ?_
      exact ⟨fun same => ⟨same.symm, nodup⟩, fun both => both.1.symm⟩

/-! ## Parsing what was encoded -/

def DhtQuery.want : DhtQuery → Option (List DhtWant)
  | .findNodeWithWant _ _ want | .getPeersWithWant _ _ want => some want
  | .ping _ | .findNode .. | .getPeers .. | .announcePeer .. => none

def DhtResponse.plain (response : DhtResponse) : DhtResponse :=
  { response with
    nodes6 := response.nodes6.map plainNode
    values := response.values.map SocketAddr.plain }

/-- The arguments of a query, as they are written. -/
def argsValue : BValue :=
  .dict ((ascii "id", .bytes (queryId query).bytes) :: queryArgs query)

/-- The name of a query as text. -/
def DhtQuery.text : DhtQuery → Text
  | .ping .. => "ping".toList
  | .findNode .. => "find_node".toList
  | .findNodeWithWant .. => "find_node".toList
  | .getPeers .. => "get_peers".toList
  | .getPeersWithWant .. => "get_peers".toList
  | .announcePeer .. => "announce_peer".toList

theorem decode_name : Utf8.decode query.name = some query.text := by
  have ping : Utf8.decode (ascii "ping") = some "ping".toList := by decide +kernel
  have findNode : Utf8.decode (ascii "find_node") = some "find_node".toList := by decide +kernel
  have getPeers : Utf8.decode (ascii "get_peers") = some "get_peers".toList := by decide +kernel
  have announcePeer : Utf8.decode (ascii "announce_peer") = some "announce_peer".toList :=
    by decide +kernel
  cases query with
  | ping => exact ping
  | findNode | findNodeWithWant => exact findNode
  | getPeers | getPeersWithWant => exact getPeers
  | announcePeer => exact announcePeer

theorem parseQueryArgs_findNode {id target : NodeId} {args : BValue}
    (read : requiredBytes args (ascii "target") = .ok target.bytes) :
    parseQueryArgs "find_node".toList id args =
      (parseWant args).map fun want => want.elim (.findNode id target) (.findNodeWithWant id target) := by
  rw [parseQueryArgs, if_neg (by decide), if_pos rfl, read]
  simp only [bind, Except.bind, parseNodeId_bytes]
  rcases parseWant args with _ | _ | _ <;> rfl

theorem parseQueryArgs_getPeers {id : NodeId} {infoHash : Bytes20} {args : BValue}
    (read : requiredBytes args (ascii "info_hash") = .ok infoHash.val) :
    parseQueryArgs "get_peers".toList id args = (parseWant args).map fun want =>
        want.elim (.getPeers id infoHash) (.getPeersWithWant id infoHash) := by
  rw [parseQueryArgs, if_neg (by decide), if_neg (by decide), if_pos rfl, read]
  simp only [bind, Except.bind, parse20_val]
  rcases parseWant args with _ | _ | _ <;> rfl

/-- What names no wanted family is read back. -/
theorem ok_eq_ok_iff {α : Type} {value result : α} : (.ok value : Except KrpcError α) = .ok result ↔
      result = value ∧ ∀ want ∈ (none : Option (List DhtWant)), want.Nodup := by
  rw [Except.ok.injEq]
  exact ⟨fun same => ⟨same.symm, nofun⟩, fun both => both.1.symm⟩

/-- The arguments are read back exactly if no wanted family is named twice. -/
theorem parseQueryArgs_eq_ok (result : DhtQuery) :
    parseQueryArgs query.text (queryId query) (argsValue query) = .ok result ↔
      result = query ∧ ∀ want ∈ query.want, want.Nodup := by
  have withWant {args : BValue} {want : List DhtWant} (make : Option (List DhtWant) → DhtQuery)
      (found : args.get (ascii "want") = some (wantValue want)) :
      (parseWant args).map make = .ok result ↔
        result = make (some want) ∧ ∀ listed ∈ some want, listed.Nodup := by
    change (parseWant args >>= fun want => .ok (make want)) = .ok result ↔ _
    simp only [bind_eq_ok, parseWant_eq_ok args found, Except.ok.injEq, and_assoc, exists_eq_left]
    exact ⟨fun both => ⟨both.2.symm, fun _ same => Option.some.inj same ▸ both.1⟩,
      fun both => ⟨both.2 want rfl, both.1.symm⟩⟩
  cases query with
  | ping id => exact ok_eq_ok_iff
  | findNode id target =>
    exact (Eq.congr_left (parseQueryArgs_findNode rfl)).trans ok_eq_ok_iff
  | findNodeWithWant id target want =>
    exact (Eq.congr_left (parseQueryArgs_findNode rfl)).trans (withWant _ rfl)
  | getPeers id infoHash =>
    exact (Eq.congr_left (parseQueryArgs_getPeers rfl)).trans ok_eq_ok_iff
  | getPeersWithWant id infoHash want =>
    exact (Eq.congr_left (parseQueryArgs_getPeers rfl)).trans (withWant _ rfl)
  | announcePeer id impliedPort infoHash port token =>
    let args := argsValue (.announcePeer id impliedPort infoHash port token)
    have implied : decide ((optionalInt args (ascii "implied_port")).getD 0 ≠ 0) = impliedPort := by
      cases impliedPort <;> rfl
    have hashBytes : requiredBytes args (ascii "info_hash") = .ok infoHash.val := rfl
    have portNumber : requiredInt args (ascii "port") = .ok (Int64.ofInt port.toNat) := rfl
    have tokenBytes : requiredBytes args (ascii "token") = .ok token := rfl
    have text : (DhtQuery.announcePeer id impliedPort infoHash port token).text =
      "announce_peer".toList := rfl
    rw [text, parseQueryArgs, if_neg (by decide), if_neg (by decide), if_neg (by decide), if_pos rfl]
    refine Iff.trans ?_ ok_eq_ok_iff
    simp only [args] at implied hashBytes portNumber tokenBytes
    simp only [bind_eq_ok, implied, hashBytes, parse20_val, portNumber, parsePort_toNat, tokenBytes,
      Except.ok.injEq, exists_eq_left', queryId]

/-- A query is read back exactly if it names no wanted family twice. -/
theorem parseQuery_eq_ok {transactionId : Bytes} {query : DhtQuery} {result : KrpcMessage} :
    parseQuery (queryValue transactionId query) transactionId = .ok result ↔
      result = .query transactionId query ∧ ∀ want ∈ query.want, want.Nodup := by
  have bytes : requiredBytes (queryValue transactionId query) (ascii "q") = .ok query.name := rfl
  have args : (queryValue transactionId query).get (ascii "a") = some (argsValue query) := rfl
  have idBytes : requiredBytes (argsValue query) (ascii "id") = .ok (queryId query).bytes := rfl
  simp only [parseQuery, bind_eq_ok, bytes, args, decode_name, okOr, idBytes, parseNodeId_bytes,
    Except.ok.injEq, exists_eq_left', parseQueryArgs_eq_ok, and_assoc, exists_eq_left]
  exact ⟨fun both => ⟨both.2.symm, both.1⟩, fun both => ⟨both.2, both.1.symm⟩⟩

theorem parseValues_compact (peers : List SocketAddr) :
    parseValues ((encodeCompactPeerValues peers).map .bytes) = .ok (peers.map SocketAddr.plain) := by
  induction peers with
  | nil => rfl
  | cons peer rest ih =>
    rw [encodeCompactPeerValues, map_cons, map_cons, parseValues, requiredValueBytes,
      BValue.asBytes]
    simp only [encodeCompactPeerValues] at ih
    simp only [bind_eq_ok, okOr, Except.ok.injEq, exists_eq_left', parseCompactPeerValue_compact,
      ih, map_cons]

/-- A response is read back, without the fields that compact addresses do not have. -/
theorem parseResponse_value :
    parseResponse (responseValue transactionId response) transactionId =
      .ok (.response transactionId response.plain) := by
  let r := BValue.dict (present (responseFields response))
  obtain ⟨nodesFound, nodes6Found, tokenFound, valuesFound⟩ : r.get (ascii "nodes") = _ ∧
    r.get (ascii "nodes6") = _ ∧ r.get (ascii "token") = _ ∧ r.get (ascii "values") = _ :=
    get_present ..
  have isResponse : (responseValue transactionId response).get (ascii "r") = some r := rfl
  have id : requiredBytes r (ascii "id") = .ok response.id.bytes := rfl
  have nodes : nodesField r = .ok response.nodes := by
    rw [nodesField, nodesFound, ← parseCompactNodes_encode response.nodes]
    cases encodeCompactNodes response.nodes with
    | nil | cons => rfl
  have nodes6 : nodes6Field r = .ok response.plain.nodes6 := by
    refine Eq.trans ?_ (parseCompactNodes6_encode response.nodes6)
    rw [nodes6Field, nodes6Found]
    cases encodeCompactNodes6 response.nodes6 with
    | nil | cons => rfl
  have token : (r.get (ascii "token")).bind BValue.asBytes = response.token := by
    rw [tokenFound]
    cases response.token with
    | none => rfl
    | some token => rfl
  have values : valuesField r = .ok response.plain.values := by
    refine Eq.trans ?_ (parseValues_compact response.values)
    rw [valuesField, valuesFound]
    cases encodeCompactPeerValues response.values with
    | nil | cons => rfl
  rw [parseResponse, isResponse]
  simp only [bind_eq_ok, okOr, id, parseNodeId_bytes, nodes, nodes6, values, token,
    Except.ok.injEq, exists_eq_left']
  rfl

theorem parseError_value (error : DhtError) :
    parseError (errorValue transactionId error) transactionId = .ok (.error transactionId error) := by
  have isError : (errorValue transactionId error).get (ascii "e") =
    some (.list [.int error.code, .bytes (Utf8.encode error.message)]) := rfl
  have message : (BValue.bytes (Utf8.encode error.message)).asStr = some error.message :=
    decode_encode error.message
  rw [parseError, isError]
  simp only [bind_eq_ok, okOr, BValue.asInt, message, Except.ok.injEq, exists_eq_left']

/-! ## Canonical dictionaries -/

variable {pairs : Pairs} {depth : Nat}

/-- A value with sorted keys, not too deep. -/
structure Canonical (depth : Nat) (value : BValue) : Prop where
  sorted : value.Sorted
  nested : value.nesting ≤ depth

@[simp]
theorem canonical_bytes (depth : Nat) (content : Bytes) : Canonical depth (.bytes content) :=
  ⟨trivial, Nat.zero_le _⟩

@[simp]
theorem canonical_int (depth : Nat) (number : Int64) : Canonical depth (.int number) :=
  ⟨trivial, Nat.zero_le _⟩

theorem canonical_dict (keys : (pairs.map Prod.fst).Pairwise (· < ·))
    (values : ∀ pair ∈ pairs, Canonical depth pair.2) : Canonical (depth + 1) (.dict pairs) := by
  have inner : SortedPairs pairs ∧ nestingPairs pairs ≤ depth + 1 := by
    clear keys
    induction pairs with
    | nil => exact ⟨trivial, Nat.zero_le _⟩
    | cons pair rest ih =>
      obtain ⟨key, value⟩ := pair
      obtain ⟨first, others⟩ := forall_mem_cons.mp values
      obtain ⟨sorted, nested⟩ := ih others
      exact ⟨⟨first.sorted, sorted⟩, Nat.max_le.mpr ⟨Nat.succ_le_succ first.nested, nested⟩⟩
  exact ⟨⟨keys, inner.1⟩, inner.2⟩

theorem canonical_list {items : List BValue} (values : ∀ item ∈ items, Canonical depth item) :
    Canonical (depth + 1) (.list items) := by
  induction items with
  | nil => exact ⟨trivial, Nat.zero_le _⟩
  | cons item rest ih =>
    obtain ⟨first, others⟩ := forall_mem_cons.mp values
    have rested := ih others
    refine ⟨⟨first.sorted, rested.sorted⟩, ?_⟩
    exact Nat.max_le.mpr ⟨Nat.succ_le_succ first.nested, rested.nested⟩

theorem canonical_strings (depth : Nat) (contents : List Bytes) :
    Canonical (depth + 1) (.list (contents.map .bytes)) := by
  refine canonical_list fun item inside => ?_
  obtain ⟨content, _, rfl⟩ := mem_map.mp inside
  exact canonical_bytes depth content

@[simp]
theorem canonical_want (depth : Nat) (want : List DhtWant) :
    Canonical (depth + 1) (wantValue want) := by
  have strings := canonical_strings depth (want.map wantBytes)
  rwa [map_map] at strings

theorem canonical_args : Canonical 2 (argsValue query) := by
  refine canonical_dict ?_ (forall_mem_cons.mpr ⟨canonical_bytes 1 _, ?_⟩)
  · cases query with
    | ping | findNode | findNodeWithWant | getPeers | getPeersWithWant | announcePeer =>
      simp only [queryArgs, map_cons, map_nil]
      decide
  · cases query with
    | ping | findNode | findNodeWithWant | getPeers | getPeersWithWant | announcePeer =>
      simp [queryArgs]

theorem keys_present (fields : List (Bytes × Option BValue)) :
    ((present fields).map Prod.fst).Sublist (fields.map Prod.fst) := by
  induction fields with
  | nil => exact .slnil
  | cons field rest ih =>
    obtain ⟨key, value⟩ := field
    cases value with
    | none => exact ih.cons key
    | some value => exact ih.cons_cons key

theorem canonical_fields (response : DhtResponse) :
    Canonical 2 (.dict (present (responseFields response))) := by
  refine canonical_dict (List.Pairwise.sublist (keys_present _) ?_) fun pair inside => ?_
  · simp only [responseFields, map_cons, map_nil]
    decide
  · obtain ⟨⟨key, value⟩, field, written⟩ := mem_filterMap.mp inside
    obtain ⟨content, there, rfl⟩ := Option.map_eq_some_iff.mp written
    subst there
    -- Each field is a string, except for the values, which are a list of strings.
    have strings : ∀ {bytes : Bytes}, (if bytes.isEmpty then none else some (.bytes bytes)) =
        some content → Canonical 1 content := by
      intro bytes found
      split at found
      · exact nomatch found
      · exact Option.some.inj found ▸ canonical_bytes 1 bytes
    simp only [responseFields, mem_cons, Prod.mk.injEq, not_mem_nil, or_false] at field
    rcases field with ⟨_, same⟩ | ⟨_, same⟩ | ⟨_, same⟩ | ⟨_, same⟩ | ⟨_, same⟩
    · exact Option.some.inj same ▸ canonical_bytes 1 _
    · exact strings same.symm
    · exact strings same.symm
    · obtain ⟨token, _, rfl⟩ := Option.map_eq_some_iff.mp same.symm
      exact canonical_bytes 1 token
    · split at same
      · exact nomatch same
      · exact Option.some.inj same ▸ canonical_strings 0 _

namespace KrpcMessage

/-- Every message is written as a canonical dictionary. -/
theorem canonical_value (message : KrpcMessage) : Canonical 3 message.value := by
  cases message with
  | query transactionId asked =>
    refine canonical_dict (by simp only [map_cons, map_nil]; decide) ?_
    simpa [argsValue] using canonical_args asked
  | response transactionId answer =>
    refine canonical_dict (by simp only [map_cons, map_nil]; decide) ?_
    simp [canonical_fields answer]
  | error transactionId problem =>
    refine canonical_dict (by simp only [map_cons, map_nil]; decide) ?_
    have pair : Canonical 2 (.list [.int problem.code, .bytes (Utf8.encode problem.message)]) :=
      canonical_list (by simp)
    simp [pair]

/-! ## The round trip -/

/-- The message without the fields that compact addresses do not have. -/
def plain : KrpcMessage → KrpcMessage
  | .response transactionId answer => .response transactionId answer.plain
  | message => message

/-- The wanted families of a query. -/
def want : KrpcMessage → Option (List DhtWant)
  | .query _ asked => asked.want
  | .response .. | .error .. => none

/-- The message is within the limits of the decoder. -/
structure Fits (message : KrpcMessage) : Prop where
  strings : message.value.StringsWithin (16 * 1024 * 1024)
  counted : message.value.nodeCount ≤ 1000000

/-- Every message of at most a million bytes is within the limits, and so is any that a datagram
can hold. -/
theorem fits_of_length {message : KrpcMessage} (short : message.encode.length ≤ 1000000) :
    message.Fits := by
  have small : (Bencode.encode message.value).length ≤ 16 * 1024 * 1024 := short.trans (by decide)
  obtain ⟨strings, counted⟩ := within_length_encode _ message.value small
  exact ⟨strings, counted.trans short⟩

theorem ofValue_eq_ok (message result : KrpcMessage) : ofValue message.value = .ok result ↔
      result = message.plain ∧ ∀ want ∈ message.want, want.Nodup := by
  cases message with
  | query transactionId asked =>
    exact parseQuery_eq_ok
  | response transactionId answer =>
    exact (Eq.congr_left (parseResponse_value transactionId answer)).trans ok_eq_ok_iff
  | error transactionId problem =>
    exact (Eq.congr_left (parseError_value transactionId problem)).trans ok_eq_ok_iff

/-- Within its limits the decoder accepts an encoded message, strict or not, and parsing gives
it back unless a wanted family is named twice. -/
theorem parse_encode_eq_ok {message : KrpcMessage} (fits : message.Fits) (result : KrpcMessage) :
    parse message.encode = .ok result ↔
      result = message.plain ∧ ∀ want ∈ message.want, want.Nodup := by
  have canonical := message.canonical_value
  have decoded := Decoder.decode_encode false message.value canonical.sorted
    (canonical.nested.trans (by decide)) fits.strings fits.counted
  rw [parse, encode, decoded]
  exact message.ofValue_eq_ok result

/-- Encoding gives a canonical dictionary. Within the limits of the decoder it is accepted, and
the message is read back exactly if no wanted family is named twice and no address has a flow or
scope. Compact nodes and peers are read back with their address and port. -/
theorem krpc_round_trip :
    (∀ message : KrpcMessage,
      message.encode = Bencode.encode message.value ∧ message.value.Sorted ∧
        (message.Fits →
          Bencode.decode message.encode = .ok message.value ∧
            (parse message.encode = .ok message ↔
              message.plain = message ∧ ∀ want ∈ message.want, want.Nodup))) ∧
    (∀ nodes, parseCompactNodes (encodeCompactNodes nodes) = .ok nodes) ∧
    (∀ nodes, parseCompactNodes6 (encodeCompactNodes6 nodes) = .ok (nodes.map plainNode)) ∧
    ∀ peers, (encodeCompactPeerValues peers).map parseCompactPeerValue =
      peers.map fun peer => .ok peer.plain := by
  refine ⟨fun message => ⟨rfl, message.canonical_value.sorted, fun fits => ⟨?_, ?_⟩⟩,
    parseCompactNodes_encode, parseCompactNodes6_encode, fun peers => ?_⟩
  · have canonical := message.canonical_value
    exact Decoder.decode_encode true message.value canonical.sorted
      (canonical.nested.trans (by decide)) fits.strings fits.counted
  · rw [parse_encode_eq_ok fits]
    exact and_congr_left' eq_comm
  · rw [encodeCompactPeerValues, List.map_map]
    exact List.map_congr_left fun peer _ => parseCompactPeerValue_compact peer

/-! ## Two messages -/

def sampleId : NodeId := ⟨List.replicate 20 1, rfl⟩

/-- A query that names a family twice. -/
def repeatedWant : KrpcMessage :=
  .query (ascii "aa") (.findNodeWithWant sampleId sampleId [.ipv4, .ipv4])

/-- The parser refuses what the encoder has written. -/
theorem repeated_want_is_refused :
    parse repeatedWant.encode = .error (.invalid "want contains a duplicate family") := by
  decide +kernel

/-- A response with a node of either family, a peer and a token. -/
def sampleResponse : KrpcMessage :=
  .response (ascii "rr")
    { id := sampleId
      nodes := [{ id := sampleId, addr := { ip := ⟨[127, 0, 0, 1], rfl⟩, port := 6881 } }]
      nodes6 := [{ id := sampleId, addr := .new ⟨List.replicate 16 2, rfl⟩ 6882 0 0 }]
      values := [.v4 { ip := ⟨[10, 0, 0, 2], rfl⟩, port := 51413 }]
      token := some (ascii "token") }

theorem sampleResponse_round_trip :
    sampleResponse.Fits ∧ Bencode.decode sampleResponse.encode = .ok sampleResponse.value ∧
      parse sampleResponse.encode = .ok sampleResponse := by
  have fits : sampleResponse.Fits := fits_of_length (by decide +kernel)
  obtain ⟨accepted, parsed⟩ := (krpc_round_trip.1 sampleResponse).2.2 fits
  exact ⟨fits, accepted, parsed.mpr ⟨by decide +kernel, nofun⟩⟩

end KrpcMessage

end TorrentNG.Dht

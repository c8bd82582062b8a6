import Mycelium.Core.Symbolic
import Mycelium.Core.Text
import Mycelium.Node.State

/-!
# Mycelium node — dial targets and the routing table

Translation of the addresses of `mycelium-core/src/bootstrap.rs` and of `setup_kad`
(`mycelium-node/src/transport.rs`). A multiaddr is dialled from left to right, so a relayed one
names two peers, the relay and, last, the peer that is reached; `peer_id_from_parsed_multiaddr`
takes the first. Reading a multiaddr is a parameter (`MultiaddrSyntax`).

* `relayCircuitMultiaddr_eq` — a circuit address is a bootstrap address with two more components;
* `peerIdFromParsedMultiaddr_eq_destination_iff` — when the first peer is the one that is reached;
* `circuit_names_destination_iff` — and what follows for circuits and for the routing table.
-/

namespace Mycelium.Node

/-- `libp2p::multiaddr::Protocol`, the components of a transport by their text. -/
inductive Protocol where
  | p2p (id : PeerId)
  | p2pCircuit
  | transport (text : String)
deriving DecidableEq

abbrev Multiaddr := List Protocol

class MultiaddrSyntax where
  /-- `str::parse::<Multiaddr>`. -/
  parseMultiaddr : String → Option Multiaddr

/-- `BOOTSTRAP_PEERS`. -/
def bootstrapPeers : List String :=
  [ "/ip4/149.248.194.198/tcp/4001/p2p/12D3KooWSkVL5ThExB7paWskDKc2pUobKrV9yWVabMpUdw8hE2wj",
    "/ip4/149.248.194.198/udp/4001/quic-v1/p2p/12D3KooWSkVL5ThExB7paWskDKc2pUobKrV9yWVabMpUdw8hE2wj" ]

/-- `peer_id_from_parsed_multiaddr`. -/
def peerIdFromParsedMultiaddr (addr : Multiaddr) : Option PeerId :=
  addr.findSome? fun
    | .p2p peerId => some peerId
    | _ => none

/-- `setup_kad`: the addresses it adds to the routing table, each under a peer. -/
def setupKad (bootstrapPeers : List Multiaddr) : List (PeerId × Multiaddr) :=
  bootstrapPeers.filterMap fun addr =>
    (peerIdFromParsedMultiaddr addr).map fun peerId => (peerId, addr)

section

variable [Prims] [MultiaddrSyntax]

/-- `peer_id_from_multiaddr`. -/
def peerIdFromMultiaddr (addr : String) : Option String := do
  let parsed ← MultiaddrSyntax.parseMultiaddr addr
  (peerIdFromParsedMultiaddr parsed).map Prims.peerIdToString

/-- What is documented of the text of peer ids and multiaddrs: an id is base58 and printed as it
was read, and a multiaddr is read component by component. The relay's id and the address before it
are constants of the code that its tests read. -/
structure MultiaddrSyntax.Laws : Prop where
  peerIdText : ∀ r id, Prims.parsePeerId r = some id → IsPeerIdText r ∧ Prims.peerIdToString id = r
  relay : (Prims.parsePeerId relayPeerId).isSome
  transport : ∃ addr, MultiaddrSyntax.parseMultiaddr "/ip4/149.248.194.198/tcp/4001" = some addr
    ∧ ∀ id, .p2p id ∉ addr
  p2p : ∀ s addr r id, MultiaddrSyntax.parseMultiaddr s = some addr → Prims.parsePeerId r = some id →
    MultiaddrSyntax.parseMultiaddr (s ++ "/p2p/" ++ r) = some (addr ++ [.p2p id])
  circuit : ∀ s addr, MultiaddrSyntax.parseMultiaddr s = some addr →
    MultiaddrSyntax.parseMultiaddr (s ++ "/p2p-circuit") = some (addr ++ [.p2pCircuit])

end

/-! ## The peers of an address -/

namespace Multiaddr

/-- The peers that an address names, in the order in which they are reached. -/
def peerIds (addr : Multiaddr) : List PeerId :=
  addr.filterMap fun
    | .p2p peerId => some peerId
    | _ => none

/-- The endpoint that is dialled, if the address names it. -/
def destination (addr : Multiaddr) : Option PeerId := addr.peerIds.getLast?

/-- The address reaches its endpoint through another peer. -/
def RelaysElsewhere (addr : Multiaddr) : Prop :=
  ∃ relay between target, addr.peerIds = relay :: (between ++ [target]) ∧ relay ≠ target

theorem peerIds_append (addr addr' : Multiaddr) :
    (addr ++ addr').peerIds = addr.peerIds ++ addr'.peerIds := List.filterMap_append

theorem peerIds_eq_nil {addr : Multiaddr} (h : ∀ id, .p2p id ∉ addr) : addr.peerIds = [] := by
  refine List.filterMap_eq_nil_iff.mpr fun component hcomponent => ?_
  cases component with
  | p2p id => exact absurd hcomponent (h id)
  | p2pCircuit => rfl
  | transport _ => rfl

end Multiaddr

theorem peerIdFromParsedMultiaddr_eq (addr : Multiaddr) :
    peerIdFromParsedMultiaddr addr = addr.peerIds.head? := by
  unfold peerIdFromParsedMultiaddr Multiaddr.peerIds
  rw [List.head?_filterMap]

/-- **The first peer is the one that is reached, except through another one.** -/
theorem peerIdFromParsedMultiaddr_eq_destination_iff (addr : Multiaddr) :
    peerIdFromParsedMultiaddr addr = addr.destination ↔ ¬ addr.RelaysElsewhere := by
  rw [peerIdFromParsedMultiaddr_eq]
  unfold Multiaddr.destination Multiaddr.RelaysElsewhere
  cases hids : addr.peerIds with
  | nil => simp
  | cons first rest =>
    induction rest using List.reverseRecOn with
    | nil => simp
    | append_singleton between target =>
      have hlast : (first :: (between ++ [target])).getLast? = some target := by
        rw [← List.cons_append, List.getLast?_concat]
      rw [hlast, List.head?_cons, Option.some.injEq]
      -- two peers or more: the first and the last
      constructor
      · rintro rfl ⟨relay, between', target', heq, hne⟩
        obtain ⟨rfl, htail⟩ := List.cons.inj heq
        exact hne (List.singleton_inj.mp (List.append_inj' htail rfl).2)
      · intro h
        by_contra hne
        exact h ⟨first, between, target, rfl, hne⟩

/-- **The routing table files every address under its endpoint** exactly if none reaches it
through another peer. -/
theorem setupKad_iff (peers : List Multiaddr) :
    (∀ addr ∈ peers, ∀ id, (id, addr) ∈ setupKad peers ↔ addr.destination = some id)
      ↔ ∀ addr ∈ peers, ¬ addr.RelaysElsewhere := by
  have hfiled : ∀ addr ∈ peers, ∀ id,
      (id, addr) ∈ setupKad peers ↔ peerIdFromParsedMultiaddr addr = some id := by
    intro addr haddr id
    unfold setupKad
    rw [List.mem_filterMap]
    constructor
    · rintro ⟨addr', -, h⟩
      obtain ⟨id', hid, heq⟩ := Option.map_eq_some_iff.mp h
      obtain ⟨rfl, rfl⟩ := Prod.mk.inj heq
      exact hid
    · intro h
      exact ⟨addr, haddr, by rw [h]; rfl⟩
  refine forall₂_congr fun addr haddr => ?_
  rw [← peerIdFromParsedMultiaddr_eq_destination_iff]
  constructor
  · intro h
    refine Option.ext fun id => ?_
    exact (hfiled addr haddr id).symm.trans (h id)
  · intro h id
    rw [hfiled addr haddr id, h]

/-! ## Circuit addresses -/

/-- A circuit address extends the first bootstrap address over TCP. -/
theorem relayCircuitMultiaddr_eq (remotePeerId : String) :
    relayCircuitMultiaddr remotePeerId
      = if trim remotePeerId = "" then none
        else (bootstrapPeers.find? fun addr => "/tcp/".toList <:+: addr.toList).map
          fun base => base ++ "/p2p-circuit/p2p/" ++ trim remotePeerId := by
  have hbase : bootstrapPeers.find? (fun addr => "/tcp/".toList <:+: addr.toList)
      = some ("/ip4/149.248.194.198/tcp/4001/p2p/" ++ relayPeerId) := by
    decide +kernel
  rw [hbase]
  rfl

section

variable [Prims] [MultiaddrSyntax]

/-- What a circuit address is read as. -/
theorem parseMultiaddr_relayCircuit (hlaws : MultiaddrSyntax.Laws) {r : String} {id : PeerId}
    (hr : Prims.parsePeerId r = some id) :
    ∃ text addr relay, relayCircuitMultiaddr r = some text
      ∧ MultiaddrSyntax.parseMultiaddr text = some addr
      ∧ Prims.parsePeerId relayPeerId = some relay ∧ addr.peerIds = [relay, id] := by
  obtain ⟨relay, hrelay⟩ := Option.isSome_iff_exists.mp hlaws.relay
  obtain ⟨transport, htransport, hplain⟩ := hlaws.transport
  have htext := (hlaws.peerIdText r id hr).1
  -- the address is read from the left: the relay's transport, its id, the circuit, the endpoint
  have hbase := hlaws.p2p _ _ _ _ htransport hrelay
  have hcircuit := hlaws.p2p _ _ _ _ (hlaws.circuit _ _ hbase) hr
  refine ⟨_, _, relay, ?_, hcircuit, hrelay, ?_⟩
  · have hjoined : "/ip4/149.248.194.198/tcp/4001/p2p/" ++ relayPeerId ++ "/p2p-circuit/p2p/" ++ r
        = "/ip4/149.248.194.198/tcp/4001" ++ "/p2p/" ++ relayPeerId ++ "/p2p-circuit" ++ "/p2p/"
          ++ r := by
      rw [show "/ip4/149.248.194.198/tcp/4001/p2p/" = "/ip4/149.248.194.198/tcp/4001" ++ "/p2p/" by
          decide +kernel,
        show "/p2p-circuit/p2p/" = "/p2p-circuit" ++ "/p2p/" by decide +kernel]
      simp only [String.append_assoc]
    unfold relayCircuitMultiaddr
    simp only [htext.trim_eq, if_neg htext.nonempty, hjoined]
  · rw [Multiaddr.peerIds_append, Multiaddr.peerIds_append, Multiaddr.peerIds_append,
      Multiaddr.peerIds_eq_nil hplain]
    rfl

/-- A circuit address names the relay. -/
theorem peerIdFromMultiaddr_relayCircuit (hlaws : MultiaddrSyntax.Laws) {r : String}
    (hr : (Prims.parsePeerId r).isSome) :
    (relayCircuitMultiaddr r).bind peerIdFromMultiaddr = some relayPeerId := by
  obtain ⟨id, hid⟩ := Option.isSome_iff_exists.mp hr
  obtain ⟨text, addr, relay, htext, haddr, hrelay, hids⟩ := parseMultiaddr_relayCircuit hlaws hid
  rw [htext, Option.bind_some]
  unfold peerIdFromMultiaddr
  rw [haddr]
  show (peerIdFromParsedMultiaddr addr).map Prims.peerIdToString = _
  rw [peerIdFromParsedMultiaddr_eq, hids]
  exact congrArg some (hlaws.peerIdText _ _ hrelay).2

/-- **Which addresses name their endpoint.** A circuit address does only if it leads to the relay
itself; any address does exactly if it does not reach its endpoint through another peer; and the
routing table is right about all dial targets exactly if none of them does. -/
theorem circuit_names_destination_iff (hlaws : MultiaddrSyntax.Laws) :
    (∀ r, (Prims.parsePeerId r).isSome →
      ((relayCircuitMultiaddr r).bind peerIdFromMultiaddr = some r ↔ r = relayPeerId))
    ∧ (∀ addr : Multiaddr,
      peerIdFromParsedMultiaddr addr = addr.destination ↔ ¬ addr.RelaysElsewhere)
    ∧ ∀ peers : List Multiaddr,
      (∀ addr ∈ peers, ∀ id, (id, addr) ∈ setupKad peers ↔ addr.destination = some id)
        ↔ ∀ addr ∈ peers, ¬ addr.RelaysElsewhere := by
  refine ⟨fun r hr => ?_, peerIdFromParsedMultiaddr_eq_destination_iff, setupKad_iff⟩
  rw [peerIdFromMultiaddr_relayCircuit hlaws hr, Option.some.injEq]
  exact eq_comm

end

/-! ## Addresses read component by component -/

/-- Peer ids that are kept as their text. -/
@[reducible] def textPeerIds : Prims :=
  { symbolicPrims with
    parsePeerId := fun s =>
      if s ≠ "" ∧ s.toList.all Char.isAlphanum = true then some ⟨0, asBytes s⟩ else none
    peerIdToString := fun p => (fromUtf8 p.digest).getD "" }

attribute [local instance] textPeerIds

/-- The components between the slashes. -/
def readComponents : List String → Option Multiaddr
  | [] => some []
  | name :: rest =>
    if name = "p2p-circuit" then (readComponents rest).map (.p2pCircuit :: ·)
    else
      match rest with
      | [] => none
      | value :: rest =>
        if name = "p2p" then
          (Prims.parsePeerId value).bind fun id => (readComponents rest).map (.p2p id :: ·)
        else if name ∈ ["ip4", "tcp", "udp"] then
          (readComponents rest).map (.transport (name ++ "/" ++ value) :: ·)
        else none

@[reducible] def slashSyntax : MultiaddrSyntax where
  parseMultiaddr s :=
    match s.toList.splitOn '/' with
    | [] :: parts => readComponents (parts.map String.ofList)
    | _ => none

theorem readComponents_append {parts : List String} {addr : Multiaddr}
    (h : readComponents parts = some addr) (more : List String) :
    readComponents (parts ++ more) = (readComponents more).map (addr ++ ·) := by
  -- along the recursion of the reader, one case for each kind of component
  fun_induction readComponents parts generalizing addr with
  | case1 =>
    obtain rfl := Option.some.inj h
    simp
  | case2 rest ih =>
    obtain ⟨addr', haddr, rfl⟩ := Option.map_eq_some_iff.mp h
    rw [List.cons_append, readComponents.eq_def]
    simp only [if_true, ih haddr, Option.map_map]
    rfl
  | case3 name hname => cases h
  | case4 value rest hname ih =>
    obtain ⟨id, hid, hrest⟩ := Option.bind_eq_some_iff.mp h
    obtain ⟨addr', haddr, rfl⟩ := Option.map_eq_some_iff.mp hrest
    rw [List.cons_append, List.cons_append, readComponents.eq_def]
    simp only [if_neg hname, if_true, hid, Option.bind_some, ih haddr, Option.map_map]
    rfl
  | case5 name hname value rest hp2p htransport ih =>
    obtain ⟨addr', haddr, rfl⟩ := Option.map_eq_some_iff.mp h
    rw [List.cons_append, List.cons_append, readComponents.eq_def]
    simp only [if_neg hname, if_neg hp2p, if_pos htransport, ih haddr, Option.map_map]
    rfl
  | case6 name hname value rest hp2p htransport => cases h

section

attribute [local instance] slashSyntax

theorem parseMultiaddr_append {s : String} {addr : Multiaddr}
    (h : MultiaddrSyntax.parseMultiaddr s = some addr) {text : List Char} (more : List (List Char))
    (htext : text.splitOn '/' = more) :
    MultiaddrSyntax.parseMultiaddr (s ++ String.ofList ('/' :: text))
      = (readComponents (more.map String.ofList)).map (addr ++ ·) := by
  have hsplit : (s ++ String.ofList ('/' :: text)).toList.splitOn '/'
      = s.toList.splitOn '/' ++ more := by
    rw [String.toList_append, String.toList_ofList, List.splitOn_append_cons_self, htext]
  unfold MultiaddrSyntax.parseMultiaddr slashSyntax at h ⊢
  simp only at h ⊢
  rw [hsplit]
  split at h
  · next parts hparts =>
    rw [hparts]
    simp only [List.cons_append, List.map_append]
    exact readComponents_append h _
  · cases h

theorem parsePeerId_textPeerIds {r : String} {id : PeerId} (h : Prims.parsePeerId r = some id) :
    IsPeerIdText r ∧ id = ⟨0, asBytes r⟩ := by
  have htext : (r ≠ "" ∧ ∀ c ∈ r.toList, c.isAlphanum = true) ∧ PeerId.mk 0 (asBytes r) = id := by
    simpa [Prims.parsePeerId] using h
  exact ⟨⟨htext.1.1, htext.1.2⟩, htext.2.symm⟩

theorem slashSyntax_laws : MultiaddrSyntax.Laws where
  peerIdText r id h := by
    obtain ⟨htext, rfl⟩ := parsePeerId_textPeerIds h
    refine ⟨htext, ?_⟩
    show (fromUtf8 (asBytes r)).getD "" = r
    rw [fromUtf8_asBytes, Option.getD_some]
  relay := by decide +kernel
  transport := ⟨[.transport "ip4/149.248.194.198", .transport "tcp/4001"], by decide +kernel, by simp⟩
  p2p s addr r id hs hr := by
    -- a peer id has no slash, so it is one component
    have hslash : '/' ∉ r.toList := (parsePeerId_textPeerIds hr).1.not_mem (by decide)
    have hparts : ("p2p/".toList ++ r.toList).splitOn '/' = ["p2p".toList, r.toList] := by
      have hjoin : "p2p/".toList ++ r.toList = ['/'].intercalate ["p2p".toList, r.toList] := by
        simp [List.intercalate]
      rw [hjoin]
      exact List.splitOn_intercalate '/' (by simpa using hslash) (by simp)
    have happ : s ++ "/p2p/" ++ r = s ++ String.ofList ('/' :: ("p2p/".toList ++ r.toList)) := by
      rw [← String.toList_inj]
      simp [String.toList_append]
    have hcomponents : readComponents (["p2p".toList, r.toList].map String.ofList)
        = some [.p2p id] := by
      have hr' : Prims.parsePeerId (String.ofList r.toList) = some id := by
        rw [String.ofList_toList, hr]
      show (Prims.parsePeerId (String.ofList r.toList)).bind _ = _
      rw [hr']
      rfl
    rw [happ, parseMultiaddr_append hs _ hparts, hcomponents]
    rfl
  circuit s addr hs := by
    have hcomponents : readComponents (["p2p-circuit".toList].map String.ofList)
        = some [.p2pCircuit] := by decide
    rw [show s ++ "/p2p-circuit" = s ++ String.ofList ('/' :: "p2p-circuit".toList) from rfl,
      parseMultiaddr_append hs ["p2p-circuit".toList] (by decide), hcomponents]
    rfl

/-- The circuit to another peer is filed under the relay. -/
theorem circuit_names_relay :
    (Prims.parsePeerId "12D3KooWAnn").isSome
    ∧ (relayCircuitMultiaddr "12D3KooWAnn").bind peerIdFromMultiaddr = some relayPeerId
    ∧ ((relayCircuitMultiaddr "12D3KooWAnn").bind MultiaddrSyntax.parseMultiaddr).map
        (fun addr => (setupKad [addr]).map fun entry => Prims.peerIdToString entry.1)
      = some [relayPeerId] := by
  decide +kernel

theorem circuit_names_destination_ann :
    ¬ (relayCircuitMultiaddr "12D3KooWAnn").bind peerIdFromMultiaddr = some "12D3KooWAnn" := by
  rw [(circuit_names_destination_iff slashSyntax_laws).1 "12D3KooWAnn" (by decide +kernel)]
  decide

end

end Mycelium.Node

import Qwertycoin.Lib.OrderedIndex
import Qwertycoin.Lib.IndexedList
import Mathlib

/-!
`PeerlistManager`, the node's white list of peers it has connected to and gray list of peers it has
heard of. Each list is a `multi_index_container` with a unique index by address and an ordered
index by `last_seen`; the model keeps each as the list of its entries in `last_seen` order, so that
`trim` erases from the front.

Whatever calls are made from empty lists, the lists keep their indexes' order, one entry an
address, only allowed addresses and at most their limits, and never share an address; and
`append_with_peer_white` leaves no gray entry with the address it promotes
(`peerlists_stay_consistent`).
-/

namespace System

/-- `System::Ipv4Address`, in host byte order. -/
structure Ipv4Address where
  value : UInt32

/-- `Ipv4Address::isLoopback`: `127.0.0.0/8`. -/
def Ipv4Address.isLoopback (addr : Ipv4Address) : Bool :=
  (addr.value &&& (0xff000000 : UInt32)) == (127 : UInt32) <<< 24

/-- `Ipv4Address::isPrivate`: `10.0.0.0/8`, `172.16.0.0/12` or `192.168.0.0/16`. -/
def Ipv4Address.isPrivate (addr : Ipv4Address) : Bool :=
  (addr.value &&& (0xff000000 : UInt32)) == (10 : UInt32) <<< 24 ||
    (addr.value &&& (0xfff00000 : UInt32)) == ((172 : UInt32) <<< 24 ||| (16 : UInt32) <<< 16) ||
    (addr.value &&& (0xffff0000 : UInt32)) == ((192 : UInt32) <<< 24 ||| (168 : UInt32) <<< 16)

end System

namespace CryptoNote

/-- `NetworkAddress`: an IPv4 address in network byte order and a port. -/
structure NetworkAddress where
  ip : UInt32
  port : UInt32
deriving DecidableEq, Repr

/-- `PeerlistEntry`: a peer's address, its id, and when it was last seen. -/
structure PeerlistEntry where
  adr : NetworkAddress
  id : UInt64
  lastSeen : UInt64
deriving DecidableEq, Repr

/-- The key of the `by_time` index. -/
def PeerlistEntry.byTime (entry : PeerlistEntry) : Nat := entry.lastSeen.toNat

/-- `hostToNetwork`: the four bytes of a word in the other order. -/
def hostToNetwork (n : UInt32) : UInt32 :=
  (n <<< 24) ||| ((n &&& (0xff00 : UInt32)) <<< 8) ||| ((n &&& (0xff0000 : UInt32)) >>> 8) ||| (n >>> 24)

/-- `networkToHost`, the same swap. -/
def networkToHost (n : UInt32) : UInt32 := hostToNetwork n

/-- `P2P_LOCAL_WHITE_PEERLIST_LIMIT`. -/
def P2P_LOCAL_WHITE_PEERLIST_LIMIT : Nat := 1000

/-- `P2P_LOCAL_GRAY_PEERLIST_LIMIT`. -/
def P2P_LOCAL_GRAY_PEERLIST_LIMIT : Nat := 5000

/-- `PeerlistManager`: whether local addresses are allowed (`m_allow_local_ip`), and the gray and
white lists, each in the order of its `by_time` index. -/
structure PeerlistManager where
  allowLocalIp : Bool
  peersGray : List PeerlistEntry
  peersWhite : List PeerlistEntry

namespace PeerlistManager

/-- The constructor followed by `init(allow_local_ip)`: both lists empty. -/
def create (allowLocalIp : Bool) : PeerlistManager :=
  { allowLocalIp, peersGray := [], peersWhite := [] }

/-- `is_ip_allowed`: never a loopback address, and a private one only when local addresses are
allowed. -/
def isIpAllowed (m : PeerlistManager) (ip : UInt32) : Bool :=
  let addr : System.Ipv4Address := ⟨networkToHost ip⟩
  -- never allow loopback ip
  if addr.isLoopback then false
  else !(!m.allowLocalIp && addr.isPrivate)

example : (create true).isIpAllowed (hostToNetwork 0x7f000001) = false := by decide

example : (create false).isIpAllowed (hostToNetwork 0xc0a80001) = false ∧
    (create true).isIpAllowed (hostToNetwork 0xc0a80001) = true := by decide

/-- `Peerlist::trim`: erase the first entry of the `by_time` index, the one seen longest ago, while
more than `maxSize` are left. -/
def trim (maxSize : Nat) : List PeerlistEntry → List PeerlistEntry
  | [] => []
  | oldest :: rest =>
    if (oldest :: rest).length > maxSize then trim maxSize rest else oldest :: rest

/-- `get<by_addr>().find(adr)`: the position of the entry with address `adr`, when there is one. -/
def findByAddr (peers : List PeerlistEntry) (adr : NetworkAddress) : Option Nat :=
  peers.findIdx? (·.adr == adr)

/-- What `append_with_peer_white` and `append_with_peer_gray` do to their own list: a record with a
new address is inserted and the list trimmed, and the record of a known address is replaced. -/
def updatePeer (maxSize : Nat) (peers : List PeerlistEntry) (ple : PeerlistEntry) :
    List PeerlistEntry :=
  match findByAddr peers ple.adr with
  | none => trim maxSize (OrderedIndex.insertUpper PeerlistEntry.byTime peers ple)
  | some i => OrderedIndex.replaceAt PeerlistEntry.byTime peers i ple

/-- The entry with address `adr` erased, if there is one. -/
def eraseByAddr (peers : List PeerlistEntry) (adr : NetworkAddress) : List PeerlistEntry :=
  match findByAddr peers adr with
  | none => peers
  | some i => peers.eraseIdx i

/-- `append_with_peer_white`, which returns `true`: an allowed peer's record goes into the white
list, and out of the gray list. -/
def appendWithPeerWhite (m : PeerlistManager) (ple : PeerlistEntry) : PeerlistManager :=
  if !m.isIpAllowed ple.adr.ip then m
  else
    { m with
      peersWhite := updatePeer P2P_LOCAL_WHITE_PEERLIST_LIMIT m.peersWhite ple
      -- remove from gray list, if need
      peersGray := eraseByAddr m.peersGray ple.adr }

/-- `append_with_peer_gray`, which returns `true`: an allowed peer's record goes into the gray list,
unless its address is in the white list. -/
def appendWithPeerGray (m : PeerlistManager) (ple : PeerlistEntry) : PeerlistManager :=
  if !m.isIpAllowed ple.adr.ip then m
  else if (findByAddr m.peersWhite ple.adr).isSome then m
  else { m with peersGray := updatePeer P2P_LOCAL_GRAY_PEERLIST_LIMIT m.peersGray ple }

/-- `trim_gray_peerlist`. -/
def trimGrayPeerlist (m : PeerlistManager) : PeerlistManager :=
  { m with peersGray := trim P2P_LOCAL_GRAY_PEERLIST_LIMIT m.peersGray }

/-- `merge_peerlist`, which returns `true`: each record offered goes to the gray list, which is then
trimmed. -/
def mergePeerlist (m : PeerlistManager) (outerBs : List PeerlistEntry) : PeerlistManager :=
  trimGrayPeerlist (outerBs.foldl appendWithPeerGray m)

/-- `set_peer_just_seen(peer, addr)`, with `now` what `time(nullptr)` reads. -/
def setPeerJustSeen (m : PeerlistManager) (peer : UInt64) (addr : NetworkAddress) (now : UInt64) :
    PeerlistManager :=
  appendWithPeerWhite m { adr := addr, id := peer, lastSeen := now }

/-- The calls that change the lists. -/
inductive Call where
  | appendWithPeerWhite (ple : PeerlistEntry)
  | appendWithPeerGray (ple : PeerlistEntry)
  | setPeerJustSeen (peer : UInt64) (addr : NetworkAddress) (now : UInt64)
  | mergePeerlist (outerBs : List PeerlistEntry)

/-- One call. -/
def Call.apply (m : PeerlistManager) : Call → PeerlistManager
  | .appendWithPeerWhite ple => m.appendWithPeerWhite ple
  | .appendWithPeerGray ple => m.appendWithPeerGray ple
  | .setPeerJustSeen peer addr now => m.setPeerJustSeen peer addr now
  | .mergePeerlist outerBs => m.mergePeerlist outerBs

/-- The calls in order. -/
def run (m : PeerlistManager) (calls : List Call) : PeerlistManager := calls.foldl Call.apply m

/-! ### Finding, trimming and erasing -/

theorem findByAddr_eq_none {peers : List PeerlistEntry} {adr : NetworkAddress} :
    findByAddr peers adr = none ↔ ∀ e ∈ peers, e.adr ≠ adr := by
  simp [findByAddr, List.findIdx?_eq_none_iff]

theorem findByAddr_eq_some {peers : List PeerlistEntry} {adr : NetworkAddress} {i : Nat}
    (found : findByAddr peers adr = some i) : ∃ inRange : i < peers.length, peers[i].adr = adr := by
  obtain ⟨inRange, hit, -⟩ := List.findIdx?_eq_some_iff_getElem.mp found
  exact ⟨inRange, by simpa using hit⟩

/-- `trim` erases the entries in front of the last `maxSize`. -/
theorem trim_eq_drop (maxSize : Nat) :
    ∀ peers : List PeerlistEntry, trim maxSize peers = peers.drop (peers.length - maxSize)
  | [] => List.drop_nil.symm
  | oldest :: rest => by
    rw [trim]
    split
    · -- One entry too many at least: the oldest goes, and the loop goes on.
      rename_i beyond
      have fewer : (oldest :: rest).length - maxSize = (rest.length - maxSize) + 1 := by
        rw [List.length_cons] at beyond ⊢
        omega
      rw [trim_eq_drop maxSize rest, fewer, List.drop_succ_cons]
    · -- Few enough: the loop stops.
      rename_i within
      rw [Nat.sub_eq_zero_of_le (Nat.le_of_not_lt within), List.drop_zero]

theorem trim_sublist (maxSize : Nat) (peers : List PeerlistEntry) :
    (trim maxSize peers).Sublist peers := by
  rw [trim_eq_drop]
  exact List.drop_sublist _ _

theorem length_trim_le (maxSize : Nat) (peers : List PeerlistEntry) :
    (trim maxSize peers).length ≤ maxSize := by
  rw [trim_eq_drop, List.length_drop]
  omega

theorem eraseByAddr_sublist (peers : List PeerlistEntry) (adr : NetworkAddress) :
    (eraseByAddr peers adr).Sublist peers := by
  unfold eraseByAddr
  split
  · exact List.Sublist.refl _
  · exact List.eraseIdx_sublist _ _

/-- In a list with one entry an address, erasing the entry found leaves none with its address. -/
theorem adr_ne_of_mem_eraseByAddr {peers : List PeerlistEntry} {adr : NetworkAddress}
    (unique : (peers.map (·.adr)).Nodup) {e : PeerlistEntry} (member : e ∈ eraseByAddr peers adr) :
    e.adr ≠ adr := by
  -- Finding and erasing is `eraseP`, which erases every entry with the address when there is one.
  have erased : eraseByAddr peers adr = peers.filter fun e => !(e.adr == adr) := by
    have found : eraseByAddr peers adr = peers.eraseP fun e => e.adr == adr := by
      rw [List.eraseP_eq_eraseIdx]
      rfl
    rw [found]
    exact List.eraseP_eq_filter (List.length_filter_key_le_one unique adr)
  rw [erased, List.mem_filter] at member
  simpa using member.2

/-! ### One list -/

/-- What holds of each list: the order of its `by_time` index, one entry an address as its
`by_addr` index requires, only addresses `isAllowed` accepts, and at most `maxSize` entries. -/
structure ListHolds (isAllowed : UInt32 → Bool) (maxSize : Nat) (peers : List PeerlistEntry) :
    Prop where
  sorted : OrderedIndex.Sorted PeerlistEntry.byTime peers
  unique : (peers.map (·.adr)).Nodup
  allowed : ∀ e ∈ peers, isAllowed e.adr.ip = true
  bounded : peers.length ≤ maxSize

section ListHolds

variable {isAllowed : UInt32 → Bool} {maxSize : Nat} {peers : List PeerlistEntry}

theorem listHolds_nil : ListHolds isAllowed maxSize [] :=
  ⟨List.Pairwise.nil, List.nodup_nil, fun _ member => absurd member List.not_mem_nil,
    Nat.zero_le _⟩

/-- Erasing entries keeps what holds of a list. -/
theorem ListHolds.sublist (holds : ListHolds isAllowed maxSize peers) {kept : List PeerlistEntry}
    (sub : kept.Sublist peers) : ListHolds isAllowed maxSize kept :=
  ⟨holds.sorted.sublist sub, holds.unique.sublist (sub.map _),
    fun e member => holds.allowed e (sub.subset member), le_trans sub.length_le holds.bounded⟩

/-- Trimming a list to `maxSize` bounds it, whatever bound held before. -/
theorem ListHolds.after_trim {before : Nat} (holds : ListHolds isAllowed before peers) (maxSize : Nat) :
    ListHolds isAllowed maxSize (trim maxSize peers) :=
  { holds.sublist (trim_sublist maxSize peers) with bounded := length_trim_le maxSize peers }

/-- The entries after an update are the old ones and the new record. -/
theorem mem_updatePeer {ple e : PeerlistEntry} (member : e ∈ updatePeer maxSize peers ple) :
    e ∈ peers ∨ e = ple := by
  unfold updatePeer at member
  split at member
  · -- Inserted: the trimmed list holds entries of the list with the record added.
    have added := (OrderedIndex.perm_insertUpper peers ple).subset
      ((trim_sublist _ _).subset member)
    exact (List.mem_cons.mp added).symm
  · -- Replaced: the record took the place of one entry.
    rename_i i found
    obtain ⟨inRange, -⟩ := findByAddr_eq_some found
    exact List.mem_or_eq_of_mem_set ((OrderedIndex.perm_replaceAt inRange ple).subset member)

/-- An update with an allowed record keeps what holds of a list. -/
theorem ListHolds.after_updatePeer (holds : ListHolds isAllowed maxSize peers) {ple : PeerlistEntry}
    (allowedPle : isAllowed ple.adr.ip = true) :
    ListHolds isAllowed maxSize (updatePeer maxSize peers ple) := by
  have allowed : ∀ e ∈ updatePeer maxSize peers ple, isAllowed e.adr.ip = true := by
    intro e member
    rcases mem_updatePeer member with old | new
    · exact holds.allowed e old
    · rw [new]
      exact allowedPle
  cases found : findByAddr peers ple.adr with
  | none =>
    -- A new address: the record joins the list, which is then trimmed.
    simp only [updatePeer, found] at allowed ⊢
    have fresh : ple.adr ∉ peers.map (·.adr) := by
      intro member
      obtain ⟨e, old, same⟩ := List.mem_map.mp member
      exact findByAddr_eq_none.mp found e old same
    have added : (OrderedIndex.insertUpper PeerlistEntry.byTime peers ple).Perm (ple :: peers) :=
      OrderedIndex.perm_insertUpper peers ple
    have inserted : ListHolds isAllowed (peers.length + 1)
        (OrderedIndex.insertUpper PeerlistEntry.byTime peers ple) :=
      { sorted := OrderedIndex.sorted_insertUpper holds.sorted ple
        unique := (added.map (·.adr)).nodup_iff.mpr (List.nodup_cons.mpr ⟨fresh, holds.unique⟩)
        allowed := fun e member => by
          rcases List.mem_cons.mp (added.subset member) with new | old
          · rw [new]
            exact allowedPle
          · exact holds.allowed e old
        bounded := by rw [added.length_eq, List.length_cons] }
    exact inserted.after_trim maxSize
  | some i =>
    -- A known address: the record replaces the entry with it, which changes no address.
    simp only [updatePeer, found] at allowed ⊢
    obtain ⟨inRange, same⟩ := findByAddr_eq_some found
    have replaced : (OrderedIndex.replaceAt PeerlistEntry.byTime peers i ple).Perm (peers.set i ple) :=
      OrderedIndex.perm_replaceAt inRange ple
    have addresses : (peers.set i ple).map (fun e : PeerlistEntry => e.adr) = peers.map (·.adr) := by
      have mapped : i < (peers.map fun e : PeerlistEntry => e.adr).length := by
        rw [List.length_map]
        exact inRange
      have entry : (peers.map fun e : PeerlistEntry => e.adr)[i] = peers[i].adr :=
        List.getElem_map ..
      rw [List.map_set, ← same, ← entry]
      exact List.set_getElem_self mapped
    refine ⟨OrderedIndex.sorted_replaceAt holds.sorted i ple, ?_, allowed, ?_⟩
    · rw [(replaced.map (·.adr)).nodup_iff, addresses]
      exact holds.unique
    · rw [replaced.length_eq, List.length_set]
      exact holds.bounded

end ListHolds

/-! ### Both lists -/

/-- What holds of the manager: each list holds with its limit and the addresses `is_ip_allowed`
accepts, and no address is in both. -/
structure Consistent (m : PeerlistManager) : Prop where
  white : ListHolds m.isIpAllowed P2P_LOCAL_WHITE_PEERLIST_LIMIT m.peersWhite
  gray : ListHolds m.isIpAllowed P2P_LOCAL_GRAY_PEERLIST_LIMIT m.peersGray
  disjoint : ∀ e ∈ m.peersWhite, ∀ f ∈ m.peersGray, e.adr ≠ f.adr

theorem consistent_create (allowLocalIp : Bool) : Consistent (create allowLocalIp) :=
  ⟨listHolds_nil, listHolds_nil, fun _ member => absurd member List.not_mem_nil⟩

section Consistent

variable {m : PeerlistManager}

/-- After `append_with_peer_white`, no gray entry has the record's address: an allowed one was
erased, and a refused one never got into the gray list. -/
theorem adr_ne_gray_appendWithPeerWhite (c : Consistent m) (ple : PeerlistEntry) :
    ∀ f ∈ (m.appendWithPeerWhite ple).peersGray, f.adr ≠ ple.adr := by
  unfold appendWithPeerWhite
  split
  · rename_i refused
    intro f member same
    have allowed := c.gray.allowed f member
    rw [same] at allowed
    simp [allowed] at refused
  · intro f member
    exact adr_ne_of_mem_eraseByAddr c.gray.unique member

theorem consistent_appendWithPeerWhite (c : Consistent m) (ple : PeerlistEntry) :
    Consistent (m.appendWithPeerWhite ple) := by
  have promoted := adr_ne_gray_appendWithPeerWhite c ple
  unfold appendWithPeerWhite at promoted ⊢
  split
  · exact c
  · rename_i allowed
    have allowed : m.isIpAllowed ple.adr.ip = true := by simpa using allowed
    simp only [allowed, Bool.not_true, Bool.false_eq_true, if_false] at promoted
    refine ⟨c.white.after_updatePeer allowed, c.gray.sublist (eraseByAddr_sublist _ _), ?_⟩
    intro e white f gray same
    -- A white entry is an old one, which no gray entry shares, or the record itself.
    rcases mem_updatePeer white with old | new
    · exact c.disjoint e old f ((eraseByAddr_sublist _ _).subset gray) same
    · rw [new] at same
      exact promoted f gray same.symm

theorem consistent_appendWithPeerGray (c : Consistent m) (ple : PeerlistEntry) :
    Consistent (m.appendWithPeerGray ple) := by
  unfold appendWithPeerGray
  split
  · exact c
  · split
    · exact c
    · rename_i allowed known
      have allowed : m.isIpAllowed ple.adr.ip = true := by simpa using allowed
      have absent := findByAddr_eq_none.mp (by simpa using known)
      refine ⟨c.white, c.gray.after_updatePeer allowed, ?_⟩
      intro e white f gray same
      -- A gray entry is an old one, which no white entry shares, or the record, which is not white.
      rcases mem_updatePeer gray with old | new
      · exact c.disjoint e white f old same
      · rw [new] at same
        exact absent e white same

theorem consistent_mergePeerlist (c : Consistent m) (outerBs : List PeerlistEntry) :
    Consistent (m.mergePeerlist outerBs) := by
  -- Each record offered keeps the lists consistent, and so does the last trim.
  have merged : ∀ (outerBs : List PeerlistEntry) {m : PeerlistManager}, Consistent m →
      Consistent (outerBs.foldl appendWithPeerGray m) := by
    intro outerBs
    induction outerBs with
    | nil => exact fun c => c
    | cons ple rest ih => exact fun c => ih (consistent_appendWithPeerGray c ple)
  have c' := merged outerBs c
  exact ⟨c'.white, c'.gray.after_trim _, fun e white f gray =>
    c'.disjoint e white f ((trim_sublist _ _).subset gray)⟩

theorem consistent_apply (c : Consistent m) : ∀ call : Call, Consistent (call.apply m)
  | .appendWithPeerWhite ple => consistent_appendWithPeerWhite c ple
  | .appendWithPeerGray ple => consistent_appendWithPeerGray c ple
  | .setPeerJustSeen _ _ _ => consistent_appendWithPeerWhite c _
  | .mergePeerlist outerBs => consistent_mergePeerlist c outerBs

theorem consistent_run : ∀ {m : PeerlistManager} (calls : List Call), Consistent m →
    Consistent (m.run calls)
  | _, [], c => c
  | _, call :: rest, c => consistent_run rest (consistent_apply c call)

end Consistent

/-- From empty lists, whatever calls of `append_with_peer_white`, `append_with_peer_gray`,
`set_peer_just_seen` and `merge_peerlist` are made: each list keeps its `by_time` order, one entry
an address, only addresses `is_ip_allowed` accepts and at most its limit; no address is in both
lists; and `append_with_peer_white` then leaves no gray entry with the record's address. -/
theorem peerlists_stay_consistent (allowLocalIp : Bool) (calls : List Call) :
    Consistent ((create allowLocalIp).run calls) ∧
      ∀ ple : PeerlistEntry,
        ∀ f ∈ (((create allowLocalIp).run calls).appendWithPeerWhite ple).peersGray,
          f.adr ≠ ple.adr := by
  have c := consistent_run calls (consistent_create allowLocalIp)
  exact ⟨c, adr_ne_gray_appendWithPeerWhite c⟩

end PeerlistManager

end CryptoNote

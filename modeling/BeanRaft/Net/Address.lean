import BeanRaft.Lib.Decimal
import BeanRaft.Lib.Snprintf
import BeanRaft.Lib.Split
import BeanRaft.Net.Anet

/-!
# BeanRaft.Net.Address — the text of an address

`anetFormatAddr` prints an IP and a port "into something easy to parse": with brackets around an IP that has a colon, and
a colon between the two.  `anetFormatPeer` and `anetFormatSock` print those of a socket.

* `parseAddr`: the parser that the comment promises.  `parseAddr_iff`: it accepts exactly the texts of `addrText`, each
  with the one IP and the one port that it was printed from.
* `anetFormatAddr_parse`: the buffer has that text exactly when the value returned is less than its size; a text that was
  cut off is never taken for the same address.
* `anetFormatSock_parse`, `anetFormatPeer_parse`: so of every socket and of its peer, also without an address.
-/

namespace BeanRaft.Net

open CInt Lib

/-! ## Buffers -/

/-- A buffer of the caller; `none` is not initialised. -/
abbrev Buf := List (Option UInt8)

/-- The string at the front of a buffer. -/
def readText : Buf → Option (List UInt8)
  | [] => none
  | none :: _ => none
  | some c :: buf => if c = 0 then some [] else (readText buf).map (c :: ·)

/-- `snprintf(buf, buf_len, ..)` of a text. -/
def snprintf (buf : Buf) (text : List UInt8) : Option (Buf × Int) :=
  if buf = [] then some (buf, returned text)
  else (write buf 0 ((text.take (buf.length - 1) ++ [0]).map some)).map fun buf => (buf, returned text)

/-- The address of a peer or of a socket: its family, the text that `inet_ntop` makes of it, and the port. -/
structure SockAddr where
  ss_family : Int
  ip : List UInt8
  port : Nat
  deriving DecidableEq, Repr

/-- `INET6_ADDRSTRLEN` -/
def INET6_ADDRSTRLEN : Nat := 46

/-- A text that `inet_ntop` can make. -/
def SockAddr.Printable (sa : SockAddr) : Prop := 0 ∉ sa.ip ∧ sa.ip.length < INET6_ADDRSTRLEN

/-- `inet_ntop(.., dst, dst_len)`: nothing is written when the text does not fit. -/
def inet_ntop (sa : SockAddr) (dst : Buf) : Buf :=
  if sa.ip.length < dst.length then (write dst 0 ((sa.ip ++ [0]).map some)).getD dst else dst

/-! ## Formatting -/

/-- The formats `"[%s]:%d"` and `"%s:%d"`. -/
def addrText (ip : List UInt8) (port : Int) : List UInt8 :=
  if 58 ∈ ip then 91 :: ip ++ 93 :: 58 :: decimal port else ip ++ 58 :: decimal port

def anetFormatAddr (buf ip : Buf) (port : Int) : Option (Buf × Int) :=
  (readText ip).bind fun ip => snprintf buf (addrText ip port)

/-- The `/unixsocket` of a local peer. -/
def unixText : List UInt8 := [47, 117, 110, 105, 120, 115, 111, 99, 107, 101, 116]

/-- The label `error` of `anetPeerToString`: `?` as far as there is room. -/
def unknown (ip : Buf) : Option Buf :=
  if 2 ≤ ip.length then write ip 0 [some 63, some 0] else if ip.length = 1 then write ip 0 [some 0] else some ip

/-- `anetPeerToString`, where `getpeername` has returned `sa`: the buffer `ip`, the port and the value returned. -/
def anetPeerToString (sa : Option SockAddr) (ip : Buf) : Option (Buf × Nat × Int) :=
  match sa with
  | none => (unknown ip).map (·, 0, -1)
  | some sa =>
    if ip.length = 0 then (unknown ip).map (·, 0, -1)
    else if sa.ss_family = AF_INET ∨ sa.ss_family = AF_INET6 then some (inet_ntop sa ip, sa.port, 0)
    else if sa.ss_family = AF_LOCAL then
      (write ip 0 ((unixText.take ip.length ++ List.replicate (ip.length - unixText.length) 0).map some)).map (·, 0, 0)
    else (unknown ip).map (·, 0, -1)

def anetFormatPeer (sa : Option SockAddr) (buf : Buf) : Option (Buf × Int) :=
  (anetPeerToString sa (List.replicate INET6_ADDRSTRLEN none)).bind fun (ip, port, _) => anetFormatAddr buf ip port

/-- `anetSockName`, where `getsockname` has returned `sa`; two bytes are written when it has failed. -/
def anetSockName (sa : Option SockAddr) (ip : Buf) : Option (Buf × Nat × Int) :=
  match sa with
  | none => (write ip 0 [some 63, some 0]).map (·, 0, -1)
  | some sa => some (inet_ntop sa ip, sa.port, 0)

def anetFormatSock (sa : Option SockAddr) (fmt : Buf) : Option (Buf × Int) :=
  (anetSockName sa (List.replicate INET6_ADDRSTRLEN none)).bind fun (ip, port, _) => anetFormatAddr fmt ip port

/-! ## Parsing -/

/-- The IP of a host with brackets. -/
def unbracket (host : List UInt8) : Option (List UInt8) :=
  if host = 91 :: host.tail.dropLast ++ [93] then some host.tail.dropLast else none

/-- An IP with a colon has brackets. -/
def parseHost (host : List UInt8) : Option (List UInt8) := if 58 ∈ host then unbracket host else some host

def parsePort (digits : List UInt8) : Option Int := (ofDecimal digits).filter fun port => decimal port = digits

/-- The IP and the port of a text: the port follows the last colon. -/
def parseAddr (text : List UInt8) : Option (List UInt8 × Int) :=
  (splitLast 58 text).bind fun p => (parseHost p.1).bind fun ip => (parsePort p.2).map fun port => (ip, port)

/-- The address that is printed for a peer. -/
def peerAddr : Option SockAddr → List UInt8 × Int
  | none => ([63], 0)
  | some sa =>
    if sa.ss_family = AF_INET ∨ sa.ss_family = AF_INET6 then (sa.ip, sa.port)
    else if sa.ss_family = AF_LOCAL then (unixText, 0)
    else ([63], 0)

/-- The address that is printed for a socket. -/
def sockAddr : Option SockAddr → List UInt8 × Int
  | none => ([63], 0)
  | some sa => (sa.ip, sa.port)

section Address

variable {ip host text : List UInt8} {port : Int} {buf : Buf}

theorem unbracket_iff : unbracket host = some ip ↔ host = 91 :: ip ++ [93] := by
  unfold unbracket
  constructor
  · intro h
    split_ifs at h with hhost
    rw [Option.some.inj h] at hhost
    exact hhost
  · rintro rfl
    simp

theorem parseHost_iff : parseHost host = some ip ↔ host = if 58 ∈ ip then 91 :: ip ++ [93] else ip := by
  unfold parseHost
  constructor
  · intro h
    split_ifs at h with hcolon
    · have hhost := unbracket_iff.mp h
      have hmem : 58 ∈ ip := by simpa [hhost] using hcolon
      rw [if_pos hmem]
      exact hhost
    · obtain rfl := Option.some.inj h
      rw [if_neg hcolon]
  · intro h
    split_ifs at h with hcolon
    · have hmem : 58 ∈ host := by simp [h, hcolon]
      rw [if_pos hmem]
      exact unbracket_iff.mpr h
    · rw [h, if_neg hcolon]

theorem parsePort_iff {digits : List UInt8} : parsePort digits = some port ↔ digits = decimal port := by
  unfold parsePort
  rw [Option.filter_eq_some_iff]
  constructor
  · rintro ⟨-, h⟩
    exact (of_decide_eq_true h).symm
  · rintro rfl
    exact ⟨ofDecimal_decimal port, by simp⟩

/-- **The parser accepts exactly what is printed.** -/
theorem parseAddr_iff : parseAddr text = some (ip, port) ↔ text = addrText ip port := by
  have htext : addrText ip port = (if 58 ∈ ip then 91 :: ip ++ [93] else ip) ++ 58 :: decimal port := by
    unfold addrText
    split_ifs <;> simp
  rw [htext]
  unfold parseAddr
  constructor
  · intro h
    obtain ⟨⟨host, digits⟩, hsplit, h⟩ := Option.bind_eq_some_iff.mp h
    obtain ⟨ip', hhost, h⟩ := Option.bind_eq_some_iff.mp h
    obtain ⟨port', hport, h⟩ := Option.map_eq_some_iff.mp h
    obtain ⟨rfl, rfl⟩ := Prod.mk.inj h
    dsimp only at hhost hport
    rw [(splitLast_iff.mp hsplit).1, parseHost_iff.mp hhost, parsePort_iff.mp hport]
  · rintro rfl
    rw [splitLast_iff.mpr ⟨rfl, not_mem_decimal rfl (by decide) port⟩, Option.bind_some, parseHost_iff.mpr rfl, Option.bind_some,
      parsePort_iff.mpr rfl]
    rfl

/-! ## In a buffer -/

theorem readText_append (h : 0 ∉ text) (rest : Buf) : readText (text.map some ++ some 0 :: rest) = some text := by
  induction text with
  | nil => rfl
  | cons c text ih =>
    have hc : c ≠ 0 := by
      rintro rfl
      exact h (by simp)
    have htext : 0 ∉ text := fun hmem => h (by simp [hmem])
    rw [List.map_cons, List.cons_append]
    unfold readText
    rw [if_neg hc, ih htext]
    rfl

/-- A text and its end are written to the front of a buffer. -/
theorem readText_write (buf : Buf) (h : 0 ∉ text) (hlen : text.length < buf.length) :
    ∃ buf', write buf 0 ((text ++ [0]).map some) = some buf' ∧ readText buf' = some text := by
  have hroom : 0 + ((text ++ [0]).map some).length ≤ buf.length := by
    rw [List.length_map, List.length_append, List.length_singleton]
    omega
  obtain ⟨buf', hbuf'⟩ := write_isSome hroom
  obtain ⟨-, heq⟩ := write_some hbuf'
  refine ⟨buf', hbuf', ?_⟩
  rw [heq]
  simp only [List.take_zero, List.nil_append, List.map_append, List.map_cons, List.map_nil, List.append_assoc,
    List.singleton_append]
  exact readText_append h _

theorem zero_readText (h : readText buf = some text) : 0 ∉ text := by
  induction buf generalizing text with
  | nil => exact absurd h (by simp [readText])
  | cons b buf ih =>
    cases b with
    | none => exact absurd h (by simp [readText])
    | some c =>
      unfold readText at h
      split_ifs at h with hc
      · rw [← Option.some.inj h]
        simp
      · obtain ⟨rest, hrest, rfl⟩ := Option.map_eq_some_iff.mp h
        simp [Ne.symm hc, ih hrest]

theorem zero_addrText (h : 0 ∉ ip) : 0 ∉ addrText ip port := by
  have hdecimal : 0 ∉ decimal port := not_mem_decimal rfl (by decide) port
  unfold addrText
  split_ifs <;> simp [h, hdecimal]

/-- A text is cut off at the end of the buffer. -/
theorem readText_snprintf (h : 0 ∉ text) (hbuf : buf ≠ []) :
    ∃ buf', snprintf buf text = some (buf', returned text) ∧ readText buf' = some (text.take (buf.length - 1)) := by
  have hpos := List.length_pos_iff.mpr hbuf
  have hzero : 0 ∉ text.take (buf.length - 1) := fun hmem => h (List.mem_of_mem_take hmem)
  obtain ⟨buf', hwrite, hread⟩ := readText_write buf hzero (by rw [List.length_take]; omega)
  refine ⟨buf', ?_, hread⟩
  unfold snprintf
  rw [if_neg hbuf, hwrite]
  rfl

/-- **The buffer has the address exactly when the value returned is less than its size.**  What was cut off parses to
another address, or to none. -/
theorem anetFormatAddr_parse (buf ip : Buf) (port : Int) (text : List UInt8) (hip : readText ip = some text)
    (hbuf : buf ≠ []) (hlen : ((addrText text port).length : Int) ≤ INT_MAX) :
    ∃ buf' ret printed, anetFormatAddr buf ip port = some (buf', ret) ∧ readText buf' = some printed ∧
      (parseAddr printed = some (text, port) ↔ ret < buf.length) := by
  have hzero : 0 ∉ addrText text port := zero_addrText (zero_readText hip)
  obtain ⟨buf', hprint, hread⟩ := readText_snprintf hzero hbuf
  refine ⟨buf', returned (addrText text port), _, ?_, hread, ?_⟩
  · unfold anetFormatAddr
    rw [hip, Option.bind_some]
    exact hprint
  · have hpos := List.length_pos_iff.mpr hbuf
    rw [parseAddr_iff, List.take_eq_self_iff, Print.returned_of_le hlen]
    omega

/-! ## The peer of a socket -/

theorem readText_inet_ntop {sa : SockAddr} (hsa : sa.Printable) (hbuf : INET6_ADDRSTRLEN ≤ buf.length) :
    readText (inet_ntop sa buf) = some sa.ip := by
  have hlen : sa.ip.length < buf.length := lt_of_lt_of_le hsa.2 hbuf
  obtain ⟨buf', hwrite, hread⟩ := readText_write buf hsa.1 hlen
  unfold inet_ntop
  rw [if_pos hlen, hwrite]
  exact hread

theorem readText_question (buf : Buf) (hbuf : 2 ≤ buf.length) :
    ∃ buf', write buf 0 [some 63, some 0] = some buf' ∧ readText buf' = some [63] := by
  have hzero : 0 ∉ ([63] : List UInt8) := by decide
  exact readText_write buf hzero hbuf

theorem readText_unknown (buf : Buf) (hbuf : 2 ≤ buf.length) : ∃ buf', unknown buf = some buf' ∧ readText buf' = some [63] := by
  obtain ⟨buf', hwrite, hread⟩ := readText_question buf hbuf
  refine ⟨buf', ?_, hread⟩
  unfold unknown
  rw [if_pos hbuf]
  exact hwrite

/-- A local buffer of `INET6_ADDRSTRLEN` bytes has room for every address. -/
theorem anetPeerToString_text (sa : Option SockAddr) (hsa : ∀ a ∈ sa, a.Printable) :
    ∃ ip port ret, anetPeerToString sa (List.replicate INET6_ADDRSTRLEN none) = some (ip, port, ret) ∧
      readText ip = some (peerAddr sa).1 ∧ (port : Int) = (peerAddr sa).2 := by
  obtain ⟨ip, hip, hread⟩ := readText_unknown (List.replicate INET6_ADDRSTRLEN none) (by decide)
  cases sa with
  | none =>
    refine ⟨ip, 0, -1, ?_, hread, rfl⟩
    unfold anetPeerToString
    rw [hip]
    rfl
  | some sa =>
    unfold anetPeerToString peerAddr
    dsimp only
    rw [if_neg (by decide)]
    by_cases hinet : sa.ss_family = AF_INET ∨ sa.ss_family = AF_INET6
    · rw [if_pos hinet, if_pos hinet]
      exact ⟨_, _, _, rfl, readText_inet_ntop (hsa sa rfl) (by decide), rfl⟩
    rw [if_neg hinet, if_neg hinet]
    by_cases hlocal : sa.ss_family = AF_LOCAL
    · rw [if_pos hlocal, if_pos hlocal]
      exact ⟨_, 0, 0, rfl, by decide, rfl⟩
    · rw [if_neg hlocal, if_neg hlocal, hip]
      exact ⟨ip, 0, -1, rfl, hread, rfl⟩

theorem addrText_length_le {n : Nat} (hip : ip.length < INET6_ADDRSTRLEN) (hn : n < 65536) :
    ((addrText ip n).length : Int) ≤ INT_MAX := by
  have hport := decimal_length_le (v := (n : Int)) (k := 5) (by decide) (by rw [Int.natAbs_natCast]; omega)
  unfold INET6_ADDRSTRLEN at hip
  unfold addrText INT_MAX
  split_ifs
  · simp only [List.cons_append, List.length_cons, List.length_append]
    omega
  · simp only [List.length_append, List.length_cons]
    omega

/-- A peer has a port of 16 bits. -/
theorem peerAddr_length_le (sa : Option SockAddr) (hsa : ∀ a ∈ sa, a.Printable ∧ a.port < 65536) :
    ((addrText (peerAddr sa).1 (peerAddr sa).2).length : Int) ≤ INT_MAX := by
  cases sa with
  | none => decide
  | some sa =>
    unfold peerAddr
    dsimp only
    split_ifs
    · exact addrText_length_le (hsa sa rfl).1.2 (hsa sa rfl).2
    · decide
    · decide

/-- Unlike `anetPeerToString`, `anetSockName` takes every family but IPv4 for IPv6. -/
theorem anetSockName_text (sa : Option SockAddr) (hsa : ∀ a ∈ sa, a.Printable) :
    ∃ ip port ret, anetSockName sa (List.replicate INET6_ADDRSTRLEN none) = some (ip, port, ret) ∧
      readText ip = some (sockAddr sa).1 ∧ (port : Int) = (sockAddr sa).2 := by
  cases sa with
  | none =>
    obtain ⟨ip, hip, hread⟩ := readText_question (List.replicate INET6_ADDRSTRLEN none) (by decide)
    refine ⟨ip, 0, -1, ?_, hread, rfl⟩
    unfold anetSockName
    rw [hip]
    rfl
  | some sa => exact ⟨_, _, _, rfl, readText_inet_ntop (hsa sa rfl) (by decide), rfl⟩

theorem sockAddr_length_le (sa : Option SockAddr) (hsa : ∀ a ∈ sa, a.Printable ∧ a.port < 65536) :
    ((addrText (sockAddr sa).1 (sockAddr sa).2).length : Int) ≤ INT_MAX := by
  cases sa with
  | none => decide
  | some sa => exact addrText_length_le (hsa sa rfl).1.2 (hsa sa rfl).2

/-- The text of a socket is complete exactly when the value returned is less than the size of the buffer. -/
theorem anetFormatSock_parse (sa : Option SockAddr) (hsa : ∀ a ∈ sa, a.Printable ∧ a.port < 65536) (fmt : Buf)
    (hfmt : fmt ≠ []) :
    ∃ fmt' ret printed, anetFormatSock sa fmt = some (fmt', ret) ∧ readText fmt' = some printed ∧
      (parseAddr printed = some (sockAddr sa) ↔ ret < fmt.length) := by
  obtain ⟨ip, port, ret, hsock, hread, hport⟩ := anetSockName_text sa fun a ha => (hsa a ha).1
  obtain ⟨fmt', ret', printed, hformat, hrest⟩ :=
    anetFormatAddr_parse fmt ip (sockAddr sa).2 (sockAddr sa).1 hread hfmt (sockAddr_length_le sa hsa)
  refine ⟨fmt', ret', printed, ?_, hrest⟩
  unfold anetFormatSock
  rw [hsock, Option.bind_some]
  dsimp only
  rw [hport]
  exact hformat

/-- **So is the text of a peer.** -/
theorem anetFormatPeer_parse (sa : Option SockAddr) (hsa : ∀ a ∈ sa, a.Printable ∧ a.port < 65536) (buf : Buf)
    (hbuf : buf ≠ []) :
    ∃ buf' ret printed, anetFormatPeer sa buf = some (buf', ret) ∧ readText buf' = some printed ∧
      (parseAddr printed = some (peerAddr sa) ↔ ret < buf.length) := by
  obtain ⟨ip, port, ret, hpeer, hread, hport⟩ := anetPeerToString_text sa fun a ha => (hsa a ha).1
  obtain ⟨buf', ret', printed, hformat, hrest⟩ :=
    anetFormatAddr_parse buf ip (peerAddr sa).2 (peerAddr sa).1 hread hbuf (peerAddr_length_le sa hsa)
  refine ⟨buf', ret', printed, ?_, hrest⟩
  unfold anetFormatPeer
  rw [hpeer, Option.bind_some]
  dsimp only
  rw [hport]
  exact hformat

/-- The text `[::1]:6379` in a buffer of 10 bytes loses its last digit. -/
theorem anetFormatPeer_parse_cut :
    ∃ buf' ret printed, anetFormatPeer (some ⟨AF_INET6, [58, 58, 49], 6379⟩) (List.replicate 10 none) = some (buf', ret) ∧
      readText buf' = some printed ∧
      (parseAddr printed = some (peerAddr (some ⟨AF_INET6, [58, 58, 49], 6379⟩)) ↔
        ret < (List.replicate 10 none : Buf).length) := by
  refine anetFormatPeer_parse _ ?_ _ (by decide)
  intro a ha
  obtain rfl := Option.some.inj ha
  exact ⟨⟨by decide, by decide⟩, by decide⟩

end Address

end BeanRaft.Net

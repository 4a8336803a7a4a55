import EventServer.Support.Printf
import EventServer.Network.BufferIntegers
import EventServer.Network.InetAddress

/-!
# Socket addresses in memory

`InetAddress` is a union of `sockaddr_in` and `sockaddr_in6`, which agree on
the family and the port and on nothing else.  This file contains the functions
that fill the union, those that print it, and the comparison by which
`isSelfConnect` finds a connection that was made to itself.

`inet_ntop` and `inet_pton` for IPv4 are the ones of the C library.  The text
of an IPv6 address is a parameter.
-/

namespace EventServer.Network

open EventServer.Support

/-! ## IPv4 addresses as text -/

/-- Numbers separated by dots. -/
def dotted : List ℕ → List Char
  | [] => []
  | [n] => decimal n
  | n :: rest => decimal n ++ '.' :: dotted rest

/-- `inet_ntop(AF_INET, ...)`, for the bytes in network order. -/
def inet_ntop4 (bytes : List UInt8) : List Char :=
  dotted (bytes.map UInt8.toNat)

/-- What `inet_pton(AF_INET, ...)` has read: the octets in front of the last
dot, and the number behind it, if a digit was seen. -/
structure OctetReader where
  octets : List ℕ
  current : Option ℕ
  deriving DecidableEq, Repr

/-- One character of the text.  Leading zeros and octets above 255 are
rejected, and so is a dot behind the fourth octet. -/
def OctetReader.next (r : OctetReader) (x : Char) : Option OctetReader :=
  if x.isDigit then
    let digit := x.toNat - '0'.toNat
    match r.current with
    | none => some { r with current := some digit }
    | some n =>
        if n = 0 ∨ 255 < n * 10 + digit then none
        else some { r with current := some (n * 10 + digit) }
  else if x = '.' then
    match r.current with
    | none => none
    | some n =>
        if r.octets.length = 3 then none else some ⟨r.octets ++ [n], none⟩
  else none

/-- `inet_pton(AF_INET, ...)`. -/
def inet_pton4 (text : List Char) : Option (List UInt8) :=
  (text.foldlM OctetReader.next ⟨[], none⟩).bind fun r =>
    match r.current with
    | some n =>
        if r.octets.length = 3
        then some ((r.octets ++ [n]).map UInt8.ofNat)
        else none
    | none => none

theorem next_digit {r : OctetReader} {d : ℕ} (hd : d < 10) :
    r.next d.digitChar =
      match r.current with
      | none => some { r with current := some d }
      | some n =>
          if n = 0 ∨ 255 < n * 10 + d then none
          else some { r with current := some (n * 10 + d) } := by
  have hall : ∀ d < 10, (Nat.digitChar d).isDigit = true ∧
      (Nat.digitChar d).toNat - '0'.toNat = d := by
    decide
  obtain ⟨hdigit, hvalue⟩ := hall d hd
  rw [OctetReader.next, if_pos hdigit, hvalue]

/-- Reading the text of a number up to 255. -/
theorem read_decimal (octets : List ℕ) {n : ℕ} (hn : n ≤ 255) :
    (decimal n).foldlM OctetReader.next ⟨octets, none⟩ =
      some ⟨octets, some n⟩ := by
  induction n using Nat.strong_induction_on with
  | _ n ih =>
      rcases Nat.lt_or_ge n 10 with hsmall | hlarge
      · simp [decimal_of_lt hsmall, next_digit hsmall]
      · have hrec := ih (n / 10) (by omega) (by omega)
        have hdigit : n % 10 < 10 := Nat.mod_lt _ (by decide)
        have hvalue : n / 10 * 10 + n % 10 = n := by omega
        have hfits : ¬ (n / 10 = 0 ∨ 255 < n) := by omega
        rw [decimal_of_ge hlarge, List.foldlM_append, hrec]
        simp only [Option.bind_eq_bind, Option.bind_some, List.foldlM_cons,
          List.foldlM_nil, next_digit hdigit, hvalue, if_neg hfits]
        rfl

/-- Reading octets behind those that have been read. -/
theorem read_dotted (octets : List ℕ) {rest : List ℕ} (last : ℕ)
    (hrest : ∀ n ∈ rest ++ [last], n ≤ 255)
    (hlength : octets.length + rest.length = 3) :
    (dotted (rest ++ [last])).foldlM OctetReader.next ⟨octets, none⟩ =
      some ⟨octets ++ rest, some last⟩ := by
  induction rest generalizing octets with
  | nil =>
      have hlast := read_decimal octets (hrest last (by simp))
      simpa [dotted] using hlast
  | cons n rest ih =>
      have hn := read_decimal octets (hrest n (by simp))
      have htail : ∀ m ∈ rest ++ [last], m ≤ 255 := fun m hm =>
        hrest m (List.mem_cons_of_mem n hm)
      have hlength' : (octets ++ [n]).length + rest.length = 3 := by
        simp only [List.length_append, List.length_cons, List.length_nil] at *
        omega
      have hshort : octets.length ≠ 3 := by
        rw [List.length_cons] at hlength
        omega
      have hdot : (⟨octets, some n⟩ : OctetReader).next '.' =
          some ⟨octets ++ [n], none⟩ := by
        simp [OctetReader.next, hshort]
      have hcons : dotted ((n :: rest) ++ [last]) =
          decimal n ++ '.' :: dotted (rest ++ [last]) := by
        cases rest with
        | nil => rfl
        | cons m rest => rfl
      rw [hcons, List.foldlM_append, hn]
      simp only [Option.bind_eq_bind, Option.bind_some, List.foldlM_cons, hdot,
        ih _ htail hlength', List.append_assoc, List.singleton_append]

/-- The text of an address is read as that address. -/
theorem inet_pton4_ntop4 {bytes : List UInt8} (h : bytes.length = 4) :
    inet_pton4 (inet_ntop4 bytes) = some bytes := by
  rcases List.eq_nil_or_concat' bytes with rfl | ⟨rest, last, rfl⟩
  · cases h
  · have hlength : rest.length = 3 := by simpa using h
    have hbound : ∀ n ∈ rest.map UInt8.toNat ++ [last.toNat], n ≤ 255 := by
      intro n hn
      rw [← List.map_singleton, ← List.map_append] at hn
      obtain ⟨byte, -, rfl⟩ := List.mem_map.mp hn
      exact Nat.le_of_lt_succ byte.toNat_lt
    have hread := read_dotted [] last.toNat hbound
      (by simp [hlength])
    rw [inet_ntop4, List.map_append, List.map_singleton, inet_pton4, hread]
    simp [hlength, Function.comp_def]

theorem inet_pton4_length {text : List Char} {bytes : List UInt8}
    (h : inet_pton4 text = some bytes) : bytes.length = 4 := by
  obtain ⟨r, -, hr⟩ := Option.bind_eq_some_iff.mp h
  split at hr
  · obtain ⟨hlength, hbytes⟩ := Option.ite_none_right_eq_some.mp hr
    obtain rfl := Option.some.inj hbytes
    simp [hlength]
  · cases hr

theorem inet_ntop4_injective {a b : List UInt8} (ha : a.length = 4)
    (hb : b.length = 4) (h : inet_ntop4 a = inet_ntop4 b) : a = b := by
  have hread := congrArg inet_pton4 h
  rw [inet_pton4_ntop4 ha, inet_pton4_ntop4 hb] at hread
  exact Option.some.inj hread

theorem mem_dotted {ns : List ℕ} {x : Char} (h : x ∈ dotted ns) :
    x.isDigit ∨ x = '.' := by
  induction ns with
  | nil => cases h
  | cons n rest ih =>
      cases rest with
      | nil => exact Or.inl (isDigit_of_mem_decimal h)
      | cons m rest =>
          rcases List.mem_append.mp h with hdigit | hrest
          · exact Or.inl (isDigit_of_mem_decimal hdigit)
          · rcases List.mem_cons.mp hrest with rfl | hlater
            · exact Or.inr rfl
            · exact ih hlater

theorem dotted_length_le {ns : List ℕ} (h : ∀ n ∈ ns, n ≤ 255) :
    (dotted ns).length ≤ 4 * ns.length - 1 := by
  induction ns with
  | nil => exact Nat.zero_le _
  | cons n rest ih =>
      have hn : (decimal n).length ≤ 3 := by
        apply decimal_length_le (by decide)
        have := h n List.mem_cons_self
        omega
      cases rest with
      | nil => simpa [dotted] using hn
      | cons m rest =>
          have hrest := ih fun k hk => h k (List.mem_cons_of_mem n hk)
          rw [dotted, List.length_append, List.length_cons]
          simp only [List.length_cons] at hrest ⊢
          omega
          · exact List.cons_ne_nil m rest

theorem inet_ntop4_length_le {bytes : List UInt8} (h : bytes.length = 4) :
    (inet_ntop4 bytes).length ≤ 15 := by
  have hbound : ∀ n ∈ bytes.map UInt8.toNat, n ≤ 255 := by
    intro n hn
    obtain ⟨byte, -, rfl⟩ := List.mem_map.mp hn
    exact Nat.le_of_lt_succ byte.toNat_lt
  have hle := dotted_length_le hbound
  rw [List.length_map, h] at hle
  exact hle

/-! ## The union -/

def AF_INET : ℕ := 2
def AF_INET6 : ℕ := 10

/-- The 28 bytes of the union.  The bytes 4 to 7 are `sin_addr` in the one view
and `sin6_flowinfo` in the other one; `sin6_addr` begins with the bytes that
`sockaddr_in` ends with. -/
structure Sockaddr where
  sin_family : ℕ
  sin_port : ℕ
  sin_addr : List UInt8
  sin_zero : List UInt8
  sin6_rest : List UInt8
  sin6_scope_id : ℕ
  port_lt : sin_port < 256 ^ 2
  addr_length : sin_addr.length = 4
  zero_length : sin_zero.length = 8
  rest_length : sin6_rest.length = 8

namespace Sockaddr

def sin6_addr (a : Sockaddr) : List UInt8 := a.sin_zero ++ a.sin6_rest

theorem sin6_addr_length (a : Sockaddr) : a.sin6_addr.length = 16 := by
  simp [sin6_addr, a.zero_length, a.rest_length]

/-- `memZero(&addr6_, sizeof addr6_)` -/
def zero6 : Sockaddr where
  sin_family := 0
  sin_port := 0
  sin_addr := List.replicate 4 0
  sin_zero := List.replicate 8 0
  sin6_rest := List.replicate 8 0
  sin6_scope_id := 0
  port_lt := by decide
  addr_length := rfl
  zero_length := rfl
  rest_length := rfl

/-- `memZero(&addr_, sizeof addr_)`, which leaves the rest of the union as it
is. -/
def zero4 (memory : Sockaddr) : Sockaddr :=
  { zero6 with
    sin6_rest := memory.sin6_rest
    sin6_scope_id := memory.sin6_scope_id
    rest_length := memory.rest_length }

/-- The texts of IPv6 addresses: `inet_ntop` and `inet_pton` for `AF_INET6`,
on the 16 bytes in network order. -/
structure Inet6Text where
  ntop : List UInt8 → List Char
  pton : List Char → Option (List UInt8)
  pton_length : ∀ text bytes, pton text = some bytes → bytes.length = 16
  pton_ntop : ∀ bytes, bytes.length = 16 → pton (ntop bytes) = some bytes
  ntop_length_le : ∀ bytes, bytes.length = 16 → (ntop bytes).length ≤ 39
  colon_mem : ∀ bytes, bytes.length = 16 → ':' ∈ ntop bytes
  bracket_not_mem : ∀ bytes, ']' ∉ ntop bytes

/-! ## Filling the union -/

def setPort (order : ByteOrder) (a : Sockaddr) (port : UInt16) : Sockaddr :=
  { a with
    sin_port := hostToNetwork16 order port.toNat
    port_lt := htobe_lt order port.toNat_lt }

/-- The object `s_addr` that holds the converted number. -/
def setSAddr (order : ByteOrder) (a : Sockaddr) (ip : ℕ) : Sockaddr :=
  { a with
    sin_addr := objectBytes order 4 (toSigned 4 (hostToNetwork32 order ip))
    addr_length := objectBytes_length .. }

/-- `InetAddress(uint16_t, bool, bool)`, in the given memory. -/
def ofPort (order : ByteOrder) (memory : Sockaddr) (portArg : UInt16)
    (loopbackOnly ipv6 : Bool) : Sockaddr :=
  if ipv6 then
    let ip := List.replicate 7 0 ++ [if loopbackOnly then 1 else 0]
    { zero6 with
      sin_family := AF_INET6
      sin6_rest := ip
      rest_length := rfl }.setPort order portArg
  else
    let ip := if loopbackOnly then 0x7f000001 else 0
    ({ memory.zero4 with sin_family := AF_INET }.setSAddr order ip).setPort
      order portArg

/-- `sockets::fromIpPort` for IPv4.  A text that is no address leaves
`sin_addr` as it was. -/
def fromIpPort4 (order : ByteOrder) (ip : List Char) (port : UInt16)
    (addr : Sockaddr) : Sockaddr :=
  let addr := { addr with sin_family := AF_INET }.setPort order port
  match h : inet_pton4 ip with
  | some bytes =>
      { addr with sin_addr := bytes, addr_length := inet_pton4_length h }
  | none => addr

/-- `sockets::fromIpPort` for IPv6. -/
def fromIpPort6 (order : ByteOrder) (inet6 : Inet6Text) (ip : List Char)
    (port : UInt16) (addr : Sockaddr) : Sockaddr :=
  let addr := { addr with sin_family := AF_INET6 }.setPort order port
  match h : inet6.pton ip with
  | some bytes =>
      { addr with
        sin_zero := bytes.take 8
        sin6_rest := bytes.drop 8
        zero_length := by simp [inet6.pton_length ip bytes h]
        rest_length := by simp [inet6.pton_length ip bytes h] }
  | none => addr

/-- `InetAddress(StringArg, uint16_t, bool)`, in the given memory. -/
def ofIpPort (order : ByteOrder) (inet6 : Inet6Text) (memory : Sockaddr)
    (ip : List Char) (portArg : UInt16) (ipv6 : Bool) : Sockaddr :=
  if ipv6 ∨ ':' ∈ ip
  then zero6.fromIpPort6 order inet6 ip portArg
  else memory.zero4.fromIpPort4 order ip portArg

/-- `InetAddress::resolve`, with the address that `gethostbyname_r` finds. -/
def resolve (found : Option {bytes : List UInt8 // bytes.length = 4})
    (out : Sockaddr) : Bool × Sockaddr :=
  match found with
  | some bytes =>
      (true, { out with sin_addr := bytes, addr_length := bytes.property })
  | none => (false, out)

/-! ## Reading the union -/

def port (order : ByteOrder) (a : Sockaddr) : UInt16 :=
  .ofNatLT (networkToHost16 order a.sin_port) (betoh_lt order a.port_lt)

/-- `sockets::toIp`, which writes nothing for any other family. -/
def toIp (inet6 : Inet6Text) (a : Sockaddr) : List Char :=
  if a.sin_family = AF_INET then inet_ntop4 a.sin_addr
  else if a.sin_family = AF_INET6 then inet6.ntop a.sin6_addr
  else []

/-- `InetAddress::toIpPort`, with its buffer of 64 bytes. -/
def toIpPort (order : ByteOrder) (inet6 : Inet6Text) (a : Sockaddr) :
    List Char :=
  if a.sin_family = AF_INET6 then
    let buf := '[' :: a.toIp inet6
    buf ++ snprintf (64 - buf.length) (']' :: ':' :: decimal (a.port order).toNat)
  else
    let buf := a.toIp inet6
    buf ++ snprintf (64 - buf.length) (':' :: decimal (a.port order).toNat)

/-- `sockets::isSelfConnect`, with the answers of `getLocalAddr` and
`getPeerAddr`. -/
def isSelfConnect (localaddr peeraddr : Sockaddr) : Bool :=
  if localaddr.sin_family = AF_INET then
    localaddr.sin_port = peeraddr.sin_port ∧
      localaddr.sin_addr = peeraddr.sin_addr
  else if localaddr.sin_family = AF_INET6 then
    localaddr.sin_port = peeraddr.sin_port ∧
      localaddr.sin6_addr = peeraddr.sin6_addr
  else false

/-! ## Texts -/

variable {order : ByteOrder} {inet6 : Inet6Text} {a b : Sockaddr}

/-- An address of one of the two families. -/
def Known (a : Sockaddr) : Prop :=
  a.sin_family = AF_INET ∨ a.sin_family = AF_INET6

/-- The same endpoint, whatever the other bytes of the union are. -/
structure SameEndpoint (a b : Sockaddr) : Prop where
  family_eq : a.sin_family = b.sin_family
  port_eq : a.sin_port = b.sin_port
  addr_eq : a.sin_family = AF_INET → a.sin_addr = b.sin_addr
  addr6_eq : a.sin_family = AF_INET6 → a.sin6_addr = b.sin6_addr

theorem AF_INET_ne : AF_INET ≠ AF_INET6 := by decide

theorem port_text_length (order : ByteOrder) (a : Sockaddr) :
    (decimal (a.port order).toNat).length ≤ 5 := by
  have hport := (a.port order).toNat_lt
  apply decimal_length_le (by decide)
  omega

theorem toNat_port (order : ByteOrder) (a : Sockaddr) :
    (a.port order).toNat = networkToHost16 order a.sin_port :=
  UInt16.toNat_ofNatLT

theorem port_inj : a.port order = b.port order ↔ a.sin_port = b.sin_port := by
  rw [← UInt16.toNat_inj, toNat_port, toNat_port]
  exact betoh_inj order a.port_lt b.port_lt

theorem toIp_of_inet (h : a.sin_family = AF_INET) :
    a.toIp inet6 = inet_ntop4 a.sin_addr :=
  if_pos h

theorem toIp_of_inet6 (h : a.sin_family = AF_INET6) :
    a.toIp inet6 = inet6.ntop a.sin6_addr := by
  rw [toIp, if_neg (by rw [h]; exact AF_INET_ne.symm), if_pos h]

/-- The text of an IPv4 endpoint is complete. -/
theorem toIpPort_of_inet (h : a.sin_family = AF_INET) :
    a.toIpPort order inet6 =
      inet_ntop4 a.sin_addr ++ ':' :: decimal (a.port order).toNat := by
  have hip := inet_ntop4_length_le a.addr_length
  have hport := a.port_text_length order
  rw [toIpPort, if_neg (by rw [h]; exact AF_INET_ne), toIp_of_inet h]
  refine congrArg _ (snprintf_of_length_lt ?_)
  rw [List.length_cons]
  omega

/-- The text of an IPv6 endpoint is complete. -/
theorem toIpPort_of_inet6 (h : a.sin_family = AF_INET6) :
    a.toIpPort order inet6 = '[' :: inet6.ntop a.sin6_addr ++
      ']' :: ':' :: decimal (a.port order).toNat := by
  have hip := inet6.ntop_length_le a.sin6_addr a.sin6_addr_length
  have hport := a.port_text_length order
  rw [toIpPort, if_pos h, toIp_of_inet6 h]
  refine congrArg (('[' :: inet6.ntop a.sin6_addr) ++ ·)
    (snprintf_of_length_lt ?_)
  simp only [List.length_cons]
  omega

theorem colon_not_mem_decimal (n : ℕ) : ':' ∉ decimal n := fun h =>
  absurd (isDigit_of_mem_decimal h) (by decide)

theorem colon_not_mem_ntop4 (bytes : List UInt8) : ':' ∉ inet_ntop4 bytes := by
  intro h
  rcases mem_dotted h with hdigit | hdot
  · exact absurd hdigit (by decide)
  · exact absurd hdot (by decide)

/-- The texts of the two families differ in their brackets. -/
theorem bracket_not_mem_of_inet (h : a.sin_family = AF_INET) :
    '[' ∉ a.toIpPort order inet6 := by
  rw [toIpPort_of_inet h]
  intro hmem
  rcases List.mem_append.mp hmem with hip | hport
  · rcases mem_dotted hip with hdigit | hdot
    · exact absurd hdigit (by decide)
    · exact absurd hdot (by decide)
  · have hdigit := List.mem_of_ne_of_mem (by decide) hport
    exact absurd (isDigit_of_mem_decimal hdigit) (by decide)

theorem bracket_mem_of_inet6 (h : a.sin_family = AF_INET6) :
    '[' ∈ a.toIpPort order inet6 := by
  rw [toIpPort_of_inet6 h]
  exact List.mem_cons_self

theorem sameEndpoint_of_toIpPort_inet (ha : a.sin_family = AF_INET)
    (hb : b.sin_family = AF_INET)
    (h : a.toIpPort order inet6 = b.toIpPort order inet6) :
    a.SameEndpoint b := by
  rw [toIpPort_of_inet ha, toIpPort_of_inet hb] at h
  obtain ⟨hip, -, hport⟩ := (List.append_cons_inj_of_notMem
    (colon_not_mem_ntop4 _) (colon_not_mem_decimal _)).mp h
  refine ⟨ha.trans hb.symm, port_inj.mp (UInt16.toNat_inj.mp
    (decimal_injective hport)), ?_, ?_⟩
  · intro _
    exact inet_ntop4_injective a.addr_length b.addr_length hip
  · intro ha6
    exact absurd (ha.symm.trans ha6) AF_INET_ne

theorem ntop6_injective {x y : List UInt8} (hx : x.length = 16)
    (hy : y.length = 16) (h : inet6.ntop x = inet6.ntop y) : x = y := by
  have hread := congrArg inet6.pton h
  rw [inet6.pton_ntop x hx, inet6.pton_ntop y hy] at hread
  exact Option.some.inj hread

theorem sameEndpoint_of_toIpPort_inet6 (ha : a.sin_family = AF_INET6)
    (hb : b.sin_family = AF_INET6)
    (h : a.toIpPort order inet6 = b.toIpPort order inet6) :
    a.SameEndpoint b := by
  rw [toIpPort_of_inet6 ha, toIpPort_of_inet6 hb] at h
  have hrest : ∀ c : Sockaddr, ']' ∉ ':' :: decimal (c.port order).toNat := by
    intro c hmem
    have hdigit := List.mem_of_ne_of_mem (by decide) hmem
    exact absurd (isDigit_of_mem_decimal hdigit) (by decide)
  obtain ⟨hip, -, hport⟩ := (List.append_cons_inj_of_notMem
    (inet6.bracket_not_mem _) (hrest a)).mp (List.cons.inj h).2
  have hsame := UInt16.toNat_inj.mp
    (decimal_injective (List.cons.inj hport).2)
  refine ⟨ha.trans hb.symm, port_inj.mp hsame, ?_, ?_⟩
  · intro ha4
    exact absurd (ha4.symm.trans ha) AF_INET_ne
  · intro _
    exact ntop6_injective a.sin6_addr_length b.sin6_addr_length hip

/-- Two endpoints have the same text exactly when they are the same. -/
theorem toIpPort_eq_iff (ha : a.Known) (hb : b.Known) :
    a.toIpPort order inet6 = b.toIpPort order inet6 ↔ a.SameEndpoint b := by
  constructor
  · intro h
    rcases ha with ha | ha
    · rcases hb with hb | hb
      · exact sameEndpoint_of_toIpPort_inet ha hb h
      · exact absurd (h ▸ bracket_mem_of_inet6 hb) (bracket_not_mem_of_inet ha)
    · rcases hb with hb | hb
      · exact absurd (h ▸ bracket_mem_of_inet6 ha) (bracket_not_mem_of_inet hb)
      · exact sameEndpoint_of_toIpPort_inet6 ha hb h
  · intro h
    have hport : a.port order = b.port order := port_inj.mpr h.port_eq
    rcases ha with ha | ha
    · rw [toIpPort_of_inet ha, toIpPort_of_inet (h.family_eq ▸ ha),
        h.addr_eq ha, hport]
    · rw [toIpPort_of_inet6 ha, toIpPort_of_inet6 (h.family_eq ▸ ha),
        h.addr6_eq ha, hport]

/-- A connection was made to itself exactly when its two endpoints have the
same text. -/
theorem isSelfConnect_iff (ha : a.Known) (hb : b.sin_family = a.sin_family) :
    isSelfConnect a b = true ↔
      a.toIpPort order inet6 = b.toIpPort order inet6 := by
  have hknown : b.Known := by rwa [Known, hb]
  rw [toIpPort_eq_iff ha hknown]
  rcases ha with ha | ha
  · simp only [isSelfConnect, if_pos ha, decide_eq_true_eq]
    constructor
    · rintro ⟨hport, haddr⟩
      exact ⟨hb.symm, hport, fun _ => haddr,
        fun ha6 => absurd (ha.symm.trans ha6) AF_INET_ne⟩
    · intro h
      exact ⟨h.port_eq, h.addr_eq ha⟩
  · have hne : a.sin_family ≠ AF_INET := by
      rw [ha]
      exact AF_INET_ne.symm
    simp only [isSelfConnect, if_neg hne, if_pos ha, decide_eq_true_eq]
    constructor
    · rintro ⟨hport, haddr⟩
      exact ⟨hb.symm, hport, fun ha4 => absurd ha4 hne, fun _ => haddr⟩
    · intro h
      exact ⟨h.port_eq, h.addr6_eq ha⟩

/-! ## Reading a text back -/

theorem hostToNetwork16_port (order : ByteOrder) (a : Sockaddr) :
    hostToNetwork16 order (a.port order).toNat = a.sin_port := by
  rw [toNat_port]
  exact htobe_betoh order a.port_lt

theorem fromIpPort4_of_pton (order : ByteOrder) {bytes : List UInt8} {ip : List Char}
    (h : inet_pton4 ip = some bytes) (port : UInt16) (memory : Sockaddr) :
    (memory.fromIpPort4 order ip port).sin_family = AF_INET ∧
      (memory.fromIpPort4 order ip port).sin_port =
        hostToNetwork16 order port.toNat ∧
      (memory.fromIpPort4 order ip port).sin_addr = bytes := by
  unfold fromIpPort4
  split
  · rename_i other hother
    obtain rfl := Option.some.inj (h.symm.trans hother)
    exact ⟨rfl, rfl, rfl⟩
  · rename_i hnone
    rw [h] at hnone
    cases hnone

theorem fromIpPort6_of_pton (order : ByteOrder) {bytes : List UInt8} {ip : List Char}
    (h : inet6.pton ip = some bytes) (port : UInt16) (memory : Sockaddr) :
    (memory.fromIpPort6 order inet6 ip port).sin_family = AF_INET6 ∧
      (memory.fromIpPort6 order inet6 ip port).sin_port =
        hostToNetwork16 order port.toNat ∧
      (memory.fromIpPort6 order inet6 ip port).sin6_addr = bytes := by
  unfold fromIpPort6
  split
  · rename_i other hother
    obtain rfl := Option.some.inj (h.symm.trans hother)
    exact ⟨rfl, rfl, List.take_append_drop 8 bytes⟩
  · rename_i hnone
    rw [h] at hnone
    cases hnone

/-- An address that is built from the text and the port of another one is the
same endpoint, in whatever memory it is built.  The flag may only ask for IPv6
where this is the family of the other one. -/
theorem ofIpPort_toIp (ha : a.Known) {ipv6 : Bool}
    (hflag : ipv6 = true → a.sin_family = AF_INET6) (memory : Sockaddr) :
    (ofIpPort order inet6 memory (a.toIp inet6) (a.port order)
      ipv6).SameEndpoint a := by
  rcases ha with ha | ha
  · have hread := inet_pton4_ntop4 a.addr_length
    have htext : a.toIp inet6 = inet_ntop4 a.sin_addr := toIp_of_inet ha
    rw [← htext] at hread
    have hcolon : ':' ∉ a.toIp inet6 := by
      rw [htext]
      exact colon_not_mem_ntop4 _
    have hbranch : ¬ (ipv6 = true ∨ ':' ∈ a.toIp inet6) := by
      rintro (h | h)
      · exact AF_INET_ne (ha.symm.trans (hflag h))
      · exact hcolon h
    rw [ofIpPort, if_neg hbranch]
    obtain ⟨hfamily, hport, haddr⟩ :=
      fromIpPort4_of_pton order hread (a.port order) memory.zero4
    refine ⟨hfamily.trans ha.symm,
      hport.trans (hostToNetwork16_port order a), fun _ => haddr, ?_⟩
    intro h6
    exact absurd (hfamily.symm.trans h6) AF_INET_ne
  · have hread := inet6.pton_ntop a.sin6_addr a.sin6_addr_length
    have htext : a.toIp inet6 = inet6.ntop a.sin6_addr := toIp_of_inet6 ha
    rw [← htext] at hread
    have hcolon : ':' ∈ a.toIp inet6 := by
      rw [htext]
      exact inet6.colon_mem _ a.sin6_addr_length
    rw [ofIpPort, if_pos (Or.inr hcolon)]
    obtain ⟨hfamily, hport, haddr⟩ :=
      fromIpPort6_of_pton order hread (a.port order) zero6
    refine ⟨hfamily.trans ha.symm,
      hport.trans (hostToNetwork16_port order a), ?_, fun _ => haddr⟩
    intro h4
    exact absurd (h4.symm.trans hfamily) AF_INET_ne

/-! ## The other constructors -/

/-- A text that is no address stands for the address `0.0.0.0`. -/
theorem ofIpPort_of_unreadable {ip : List Char} (hcolon : ':' ∉ ip)
    (hread : inet_pton4 ip = none) (port : UInt16) (memory memory' : Sockaddr) :
    (ofIpPort order inet6 memory ip port false).SameEndpoint
      (ofPort order memory' port false false) := by
  have hbranch : ¬ (false = true ∨ ':' ∈ ip) := by simp [hcolon]
  have hany : objectBytes order 4 (toSigned 4 (hostToNetwork32 order 0)) =
      List.replicate 4 0 := by
    cases order with
    | little => decide
    | big => decide
  have hfill : ofIpPort order inet6 memory ip port false =
      { memory.zero4 with sin_family := AF_INET }.setPort order port := by
    rw [ofIpPort, if_neg hbranch, fromIpPort4]
    split
    · rename_i other hother
      rw [hread] at hother
      cases hother
    · rfl
  rw [hfill]
  refine ⟨rfl, rfl, fun _ => ?_, fun h6 => absurd h6 AF_INET_ne⟩
  exact hany.symm

/-- With the flag, or with a colon in the text, it stands for `::`. -/
theorem ofIpPort_of_unreadable6 {ip : List Char} {ipv6 : Bool}
    (hbranch : ipv6 = true ∨ ':' ∈ ip) (hread : inet6.pton ip = none)
    (port : UInt16) (memory memory' : Sockaddr) :
    (ofIpPort order inet6 memory ip port ipv6).SameEndpoint
      (ofPort order memory' port false true) := by
  have hfill : ofIpPort order inet6 memory ip port ipv6 =
      { zero6 with sin_family := AF_INET6 }.setPort order port := by
    rw [ofIpPort, if_pos hbranch, fromIpPort6]
    split
    · rename_i other hother
      rw [hread] at hother
      cases hother
    · rfl
  rw [hfill]
  exact ⟨rfl, rfl, fun h4 => absurd h4.symm AF_INET_ne, fun _ => rfl⟩

/-- `resolve` stores the address that was found in an IPv4 endpoint, and
reports success on an IPv6 endpoint without changing it. -/
theorem resolve_found (bytes : {bytes : List UInt8 // bytes.length = 4})
    (ha : a.Known) :
    (resolve (some bytes) a).1 = true ∧
      (resolve (some bytes) a).2.port order = a.port order ∧
      (resolve (some bytes) a).2.toIp inet6 =
        if a.sin_family = AF_INET then inet_ntop4 bytes else a.toIp inet6 := by
  refine ⟨rfl, rfl, ?_⟩
  rcases ha with ha | ha
  · rw [if_pos ha]
    exact toIp_of_inet ha
  · rw [if_neg (by rw [ha]; exact AF_INET_ne.symm), toIp_of_inet6 ha]
    exact toIp_of_inet6 ha

/-! ## Texts with all digits -/

def hexPair (byte : UInt8) : List Char :=
  [(byte.toNat / 16).digitChar, (byte.toNat % 16).digitChar]

/-- The groups of an IPv6 address with four digits each. -/
def hexGroups : List UInt8 → List Char
  | [] => []
  | [x] => hexPair x
  | [x, y] => hexPair x ++ hexPair y
  | x :: y :: rest => hexPair x ++ hexPair y ++ ':' :: hexGroups rest

def hexValue (x : Char) : ℕ := if x.isDigit then x.toNat - 48 else x.toNat - 87

def readHexPairs : List Char → List UInt8
  | x :: y :: rest =>
      UInt8.ofNat (hexValue x * 16 + hexValue y) :: readHexPairs rest
  | _ => []

theorem hexValue_digitChar {d : ℕ} (h : d < 16) :
    hexValue d.digitChar = d := by
  have hall : ∀ d < 16, hexValue (Nat.digitChar d) = d := by decide
  exact hall d h

theorem readHexPairs_flatMap (bytes : List UInt8) :
    readHexPairs (bytes.flatMap hexPair) = bytes := by
  induction bytes with
  | nil => rfl
  | cons byte bytes ih =>
      have hlow : byte.toNat % 16 < 16 := Nat.mod_lt _ (by decide)
      have hhigh : byte.toNat / 16 < 16 := by
        have := byte.toNat_lt
        omega
      simp only [List.flatMap_cons, hexPair, List.cons_append, List.nil_append,
        readHexPairs, hexValue_digitChar hlow, hexValue_digitChar hhigh, ih]
      rw [Nat.div_add_mod']
      simp

theorem mem_hexPair {byte : UInt8} {x : Char} (h : x ∈ hexPair byte) :
    x ≠ ':' ∧ x ≠ ']' := by
  have hall : ∀ d < 16, Nat.digitChar d ≠ ':' ∧ Nat.digitChar d ≠ ']' := by
    decide
  have hlow : byte.toNat % 16 < 16 := Nat.mod_lt _ (by decide)
  have hhigh : byte.toNat / 16 < 16 := by
    have := byte.toNat_lt
    omega
  simp only [hexPair, List.mem_cons, List.not_mem_nil, or_false] at h
  rcases h with rfl | rfl
  · exact hall _ hhigh
  · exact hall _ hlow

theorem filter_hexPair (byte : UInt8) :
    (hexPair byte).filter (· ≠ ':') = hexPair byte := by
  rw [List.filter_eq_self]
  intro x hx
  simpa using (mem_hexPair hx).1

/-- Without the colons, the digits of all bytes remain. -/
theorem filter_hexGroups (bytes : List UInt8) :
    (hexGroups bytes).filter (· ≠ ':') = bytes.flatMap hexPair := by
  fun_induction hexGroups bytes with
  | case1 => rfl
  | case2 x => simpa using filter_hexPair x
  | case3 x y =>
      rw [List.filter_append, filter_hexPair, filter_hexPair]
      simp
  | case4 x y rest _ ih =>
      rw [List.filter_append, List.filter_append, filter_hexPair,
        filter_hexPair, List.filter_cons_of_neg (by simp), ih]
      simp

theorem hexGroups_length_le {bytes : List UInt8} (h : bytes ≠ []) :
    2 * (hexGroups bytes).length + 1 ≤ 5 * bytes.length := by
  fun_induction hexGroups bytes with
  | case1 => exact absurd rfl h
  | case2 x => simp [hexPair]
  | case3 x y => simp [hexPair]
  | case4 x y rest hrest ih =>
      have hle := ih (by
        rintro rfl
        exact hrest rfl)
      simp only [hexPair, List.length_append, List.length_cons,
        List.length_nil]
      omega

theorem bracket_not_mem_hexGroups (bytes : List UInt8) :
    ']' ∉ hexGroups bytes := by
  fun_induction hexGroups bytes with
  | case1 => simp
  | case2 x => exact fun h => (mem_hexPair h).2 rfl
  | case3 x y =>
      intro h
      rcases List.mem_append.mp h with hx | hy
      · exact (mem_hexPair hx).2 rfl
      · exact (mem_hexPair hy).2 rfl
  | case4 x y rest hrest ih =>
      intro h
      rcases List.mem_append.mp h with hpair | hlater
      · rcases List.mem_append.mp hpair with hx | hy
        · exact (mem_hexPair hx).2 rfl
        · exact (mem_hexPair hy).2 rfl
      · exact ih (List.mem_of_ne_of_mem (by decide) hlater)

/-- The texts of addresses in which no group begins with a zero. -/
def unabbreviated : Inet6Text where
  ntop := hexGroups
  pton text :=
    let bytes := readHexPairs (text.filter (· ≠ ':'))
    if bytes.length = 16 then some bytes else none
  pton_length := by
    intro text bytes h
    obtain ⟨hlength, hbytes⟩ := Option.ite_none_right_eq_some.mp h
    obtain rfl := Option.some.inj hbytes
    exact hlength
  pton_ntop := by
    intro bytes h
    simp only [filter_hexGroups, readHexPairs_flatMap, if_pos h]
  ntop_length_le := by
    intro bytes h
    have hne : bytes ≠ [] := by
      rintro rfl
      cases h
    have hle := hexGroups_length_le hne
    omega
  colon_mem := by
    intro bytes h
    match bytes, h with
    | x :: y :: z :: rest, _ => simp [hexGroups]
  bracket_not_mem := bracket_not_mem_hexGroups

/-- What a text, a port and a host name make of an endpoint: the text and port
of an endpoint build the same one again, a text that is no address of the chosen
family builds `0.0.0.0` or `::`, and `resolve` replaces the address of IPv4
endpoints only. -/
theorem endpoint_construction (order : ByteOrder) (inet6 : Inet6Text)
    (memory memory' a : Sockaddr) (ha : a.Known) :
    (∀ ipv6, (ipv6 = true → a.sin_family = AF_INET6) →
      (ofIpPort order inet6 memory (a.toIp inet6) (a.port order)
        ipv6).SameEndpoint a) ∧
    (∀ ip port, ':' ∉ ip → inet_pton4 ip = none →
      (ofIpPort order inet6 memory ip port false).SameEndpoint
        (ofPort order memory' port false false)) ∧
    (∀ ip port ipv6, ipv6 = true ∨ ':' ∈ ip → inet6.pton ip = none →
      (ofIpPort order inet6 memory ip port ipv6).SameEndpoint
        (ofPort order memory' port false true)) ∧
    ∀ bytes, (resolve (some bytes) a).1 = true ∧
      (resolve (some bytes) a).2.port order = a.port order ∧
      (resolve (some bytes) a).2.toIp inet6 =
        if a.sin_family = AF_INET then inet_ntop4 bytes else a.toIp inet6 :=
  ⟨fun _ hflag => ofIpPort_toIp ha hflag memory,
    fun _ port hcolon hread =>
      ofIpPort_of_unreadable hcolon hread port memory memory',
    fun _ port _ hbranch hread =>
      ofIpPort_of_unreadable6 hbranch hread port memory memory',
    fun bytes => resolve_found bytes ha⟩

/-- The endpoint `2001:1db8:1111:2222:3333:4444:5555:6666` with port 80. -/
def webEndpoint : Sockaddr where
  sin_family := AF_INET6
  sin_port := hostToNetwork16 .little 80
  sin_addr := [0, 0, 0, 0]
  sin_zero := [0x20, 0x01, 0x1d, 0xb8, 0x11, 0x11, 0x22, 0x22]
  sin6_rest := [0x33, 0x33, 0x44, 0x44, 0x55, 0x55, 0x66, 0x66]
  sin6_scope_id := 0
  port_lt := by decide
  addr_length := rfl
  zero_length := rfl
  rest_length := rfl

theorem endpoint_construction_web :
    (ofIpPort .little unabbreviated zero6 (webEndpoint.toIp unabbreviated)
      (webEndpoint.port .little) false).SameEndpoint webEndpoint ∧
    (ofIpPort .little unabbreviated webEndpoint ['1', '.', '2', '.', '3'] 80
      false).SameEndpoint (ofPort .little zero6 80 false false) ∧
    (ofIpPort .little unabbreviated webEndpoint ['a', ':', '8', '0'] 80
      false).SameEndpoint (ofPort .little zero6 80 false true) ∧
    (resolve (some ⟨[10, 0, 0, 1], rfl⟩) webEndpoint).1 = true ∧
    (resolve (some ⟨[10, 0, 0, 1], rfl⟩) webEndpoint).2.toIp unabbreviated =
      webEndpoint.toIp unabbreviated := by
  have hknown : webEndpoint.Known := Or.inr rfl
  obtain ⟨hsame, -, -, hresolve⟩ :=
    endpoint_construction .little unabbreviated zero6 zero6 webEndpoint hknown
  obtain ⟨-, hany4, hany6, -⟩ := endpoint_construction .little unabbreviated
    webEndpoint zero6 webEndpoint hknown
  obtain ⟨hreports, -, htext⟩ := hresolve ⟨[10, 0, 0, 1], rfl⟩
  refine ⟨hsame false nofun, hany4 _ 80 (by decide) (by decide),
    hany6 _ 80 false (Or.inr (by decide)) (by decide), hreports, ?_⟩
  rw [htext, if_neg (by decide)]

/-- Endpoints are told apart by their texts, and `isSelfConnect` compares the
texts of the two endpoints of a connection. -/
theorem endpoint_texts (order : ByteOrder) (inet6 : Inet6Text)
    (a b : Sockaddr) (ha : a.Known) (hb : b.Known) :
    (a.toIpPort order inet6 = b.toIpPort order inet6 ↔ a.SameEndpoint b) ∧
    (b.sin_family = a.sin_family → (isSelfConnect a b = true ↔
      a.toIpPort order inet6 = b.toIpPort order inet6)) :=
  ⟨toIpPort_eq_iff ha hb, isSelfConnect_iff ha⟩

/-- A connection of the loopback address to itself: the two ends lie in
different memory. -/
theorem endpoint_texts_loopback :
    let a := ofPort .little zero6 80 true false
    let b := ofPort .little webEndpoint 80 true false
    b.sin_family = a.sin_family ∧ b.sin6_rest ≠ a.sin6_rest ∧
      isSelfConnect a b = true ∧
      a.toIpPort .little unabbreviated = b.toIpPort .little unabbreviated ∧
      a.SameEndpoint b := by
  intro a b
  have ha : a.Known := Or.inl rfl
  have hb : b.Known := Or.inl rfl
  obtain ⟨hsame, hself⟩ := endpoint_texts .little unabbreviated a b ha hb
  have hconnect : isSelfConnect a b = true := by decide
  have htexts := (hself rfl).mp hconnect
  exact ⟨rfl, by decide, hconnect, htexts, hsame.mp htexts⟩

example : (ofPort .little zero6 80 true false).toIpPort .little unabbreviated =
    ['1', '2', '7', '.', '0', '.', '0', '.', '1', ':', '8', '0'] := by
  decide

/-! ## The text level -/

theorem toIp_length_le (ha : a.Known) :
    (a.toIp inet6).length ≤
      (if a.sin_family = AF_INET6 then Family.AF_INET6
        else Family.AF_INET).maxIpLength := by
  rcases ha with ha | ha
  · rw [if_neg (by rw [ha]; exact AF_INET_ne), toIp_of_inet ha]
    exact inet_ntop4_length_le a.addr_length
  · rw [if_pos ha, toIp_of_inet6 ha]
    exact inet6.ntop_length_le _ a.sin6_addr_length

/-- The endpoint with its address as text. -/
def toInetAddress (order : ByteOrder) (inet6 : Inet6Text) (a : Sockaddr)
    (ha : a.Known) : InetAddress where
  family := if a.sin_family = AF_INET6 then .AF_INET6 else .AF_INET
  ip := a.toIp inet6
  port := a.port order
  ip_length := toIp_length_le ha

/-- The text of the union is the one of the endpoint with its address as
text. -/
theorem toInetAddress_toIpPort (ha : a.Known) :
    (a.toInetAddress order inet6 ha).toIpPort = a.toIpPort order inet6 := by
  by_cases h6 : a.sin_family = AF_INET6
  · simp [InetAddress.toIpPort, toInetAddress, toIpPort, h6]
  · simp [InetAddress.toIpPort, toInetAddress, toIpPort, h6]

end Sockaddr

end EventServer.Network

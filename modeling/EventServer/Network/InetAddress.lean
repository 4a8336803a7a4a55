import EventServer.Support.Decimal

/-!
# Socket addresses as text

`InetAddress::toIpPort` and the function of `SocketsOps.cc` that it calls.
-/

namespace EventServer.Network

open EventServer.Support

inductive Family where
  | AF_INET
  | AF_INET6
  deriving DecidableEq, Repr

/-- The longest text that `inet_ntop` writes for an address of the family. -/
def Family.maxIpLength : Family → ℕ
  | .AF_INET => 15
  | .AF_INET6 => 39

/-- An address.  The bytes of the IP address only matter by the text that
`inet_ntop` writes for them. -/
structure InetAddress where
  family : Family
  ip : List Char
  port : UInt16
  ip_length : ip.length ≤ family.maxIpLength

namespace InetAddress

/-- The address `0.0.0.0:2007`. -/
def any : InetAddress where
  family := .AF_INET
  ip := ['0', '.', '0', '.', '0', '.', '0']
  port := 2007
  ip_length := by decide

/-- `toIpPort`, which writes into a buffer of 64 bytes. -/
def toIpPort (addr : InetAddress) : List Char :=
  match addr.family with
  | .AF_INET6 =>
      let buf := '[' :: addr.ip
      buf ++ snprintf (64 - buf.length)
        (']' :: ':' :: decimal addr.port.toNat)
  | .AF_INET =>
      addr.ip ++ snprintf (64 - addr.ip.length)
        (':' :: decimal addr.port.toNat)

theorem toIpPort_length_le (addr : InetAddress) :
    addr.toIpPort.length ≤ 47 := by
  have hip := addr.ip_length
  have hport : (decimal addr.port.toNat).length ≤ 5 := by
    apply decimal_length_le (by decide)
    have := addr.port.toNat_lt
    omega
  unfold toIpPort
  cases hfamily : addr.family with
  | AF_INET =>
      rw [hfamily, Family.maxIpLength] at hip
      have hrest := snprintf_length_le (64 - addr.ip.length)
        (':' :: decimal addr.port.toNat)
      simp only [List.length_append, List.length_cons] at hrest ⊢
      omega
  | AF_INET6 =>
      rw [hfamily, Family.maxIpLength] at hip
      have hrest := snprintf_length_le (64 - ('[' :: addr.ip).length)
        (']' :: ':' :: decimal addr.port.toNat)
      simp only [List.length_append, List.length_cons] at hrest ⊢
      omega

end InetAddress

end EventServer.Network

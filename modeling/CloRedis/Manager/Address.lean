import Mathlib.Data.List.DropRight
import Mathlib.Tactic

/-!
`parse_address_vector` of `cloredis.cc`, with the parts of the C library and of
Boost that it uses, in the C locale.
-/

namespace CloRedis

structure ServiceAddress where
  host : String := ""
  fullHost : String := ""
  port : Int := 0
  deriving DecidableEq, Repr

def isSpace (c : Char) : Bool :=
  c = ' ' || ('\t' ≤ c && c ≤ '\r')

def digitValue (digits : List Char) : Nat :=
  digits.foldl (fun n c => 10 * n + (c.toNat - '0'.toNat)) 0

/-- The sign `strtol` reads, and what is behind it. -/
def signOf : List Char → Bool × List Char
  | '-' :: rest => (true, rest)
  | '+' :: rest => (false, rest)
  | rest => (false, rest)

/-- `strtol` in base 10 with a 64-bit `long`. -/
def strtol (text : List Char) : Int :=
  let (negative, rest) := signOf (text.dropWhile isSpace)
  let value : Int := digitValue (rest.takeWhile Char.isDigit)
  max (-2 ^ 63) (min (2 ^ 63 - 1) (if negative then -value else value))

/-- `strtol` cast to a 32-bit `int`. -/
def atoi (text : List Char) : Int := (strtol text).bmod (2 ^ 32)

/-- `boost::trim` -/
def trim (text : List Char) : List Char :=
  (text.dropWhile isSpace).rdropWhile isSpace

/-- The address an entry of the list denotes, if it is one. -/
def parseAddress (fullHost : List Char) : Option ServiceAddress :=
  match fullHost.splitOn ':' with
  | [host, service] =>
      let port := atoi service
      if 0 < port ∧ port < 65536 then
        some ⟨String.ofList (trim host), String.ofList (trim fullHost), port⟩
      else none
  | _ => none

def parseAddressVector (host : String) : List ServiceAddress :=
  (host.toList.splitOn ',').filterMap parseAddress

theorem parseAddressVector_localhost :
    parseAddressVector "localhost:6379" = [⟨"localhost", "localhost:6379", 6379⟩] := by
  decide +kernel

theorem parseAddressVector_empty : parseAddressVector "" = [] := by
  decide +kernel

end CloRedis

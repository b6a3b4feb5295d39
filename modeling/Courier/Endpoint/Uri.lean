import Courier.Endpoint

/-!
# Reading connection URIs

`Endpoint.ofUri?` takes a connection URI apart by the general rules: the scheme, the user
information up to the first at sign, split at its first colon, the host and the port, and the path
after the first slash. User, password and path are percent-decoded, and an empty path is the
default virtual host.
-/

namespace Courier

/-- The characters before the first that is `c`, and those after it. -/
def splitAtFirst? (c : Char) (cs : List Char) : Option (List Char × List Char) :=
  match cs.dropWhile (· ≠ c) with
  | [] => none
  | _ :: rest => some (cs.takeWhile (· ≠ c), rest)

/-- The bytes of a text with every percent sign and two hexadecimal digits taken for one byte. -/
def percentBytes? : List Char → Option (List UInt8)
  | [] => some []
  | '%' :: a :: b :: rest =>
    match Hex.value? [a, b], percentBytes? rest with
    | some n, some bytes => some (UInt8.ofNat n :: bytes)
    | _, _ => none
  | c :: rest =>
    if c = '%' then none
    else (percentBytes? rest).map (String.utf8EncodeChar c ++ ·)

/-- The text behind percent escapes. -/
def percentDecode? (cs : List Char) : Option String := do
  String.fromUTF8? (ByteArray.mk (← percentBytes? cs).toArray)

/-- The endpoint that a connection URI names. -/
def Endpoint.ofUri? (uri : String) : Option Endpoint := do
  let rest ← Json.expect "amqp://".toList uri.toList
  let (userInfo, rest) ← splitAtFirst? '@' rest
  let (user, password) ← splitAtFirst? ':' userInfo
  let (authority, path) ← splitAtFirst? '/' rest
  let (host, port) ← splitAtFirst? ':' authority
  let port ← natural? port
  let vhost ← percentDecode? path
  if port < 0x10000 then
    return {
      host := String.ofList host
      port := UInt16.ofNat port
      user := ← percentDecode? user
      password := ← percentDecode? password
      vhost := if vhost = "" then "/" else vhost }
  else none

end Courier

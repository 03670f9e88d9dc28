import ContentFilter.Fragment
import ContentFilter.Text.Bytes

/-!
# Hosts

The host of an address `scheme://user@host:443/path`. The scheme ends at the first colon, which two
slashes have to follow. The user part, if there is one, ends at the first `@`; the host ends at a
colon or at the path, query or anchor.

An address is searched byte by byte, and its host is the text between the two positions found.

In the engine: `get_scheme_end` (`schemeEnd?`), `get_host_position` (`hostSpan?`), `extract_host`
(`host?`).
-/

set_option autoImplicit false

namespace ContentFilter.Url

/-- The characters that end the part of an address that holds the host. -/
def authorityEnds : List Char := ['/', '?', '#']

/-- Where the scheme and the slashes after it end (`get_scheme_end`). -/
def schemeEnd? (bytes : List UInt8) : Option Nat := do
  let colon ← bytes.findIdx? (Text.isByteOf [':'])
  if bytes[colon + 1]? = some '/'.toUInt8 ∧ bytes[colon + 2]? = some '/'.toUInt8 then
    some (colon + 3)
  else none

/-- Where the host starts, after a scheme that ends at `start`. -/
def hostStart (bytes : List UInt8) (start : Nat) : Nat :=
  let i := Text.findByte ('@' :: authorityEnds) start bytes
  if bytes[i]? = some '@'.toUInt8 then i + 1 else start

/-- The bytes that the host of an address occupies (`get_host_position`). -/
def hostSpan? (bytes : List UInt8) : Option Span :=
  (schemeEnd? bytes).map fun schemeEnd =>
    let start := hostStart bytes schemeEnd
    ⟨start, Text.findByte (':' :: authorityEnds) start bytes⟩

/-- What occupies a range of bytes of an address. -/
def part? (url : Text) (s : Span) : Option Fragment :=
  (Text.slice? s.start s.stop url).map (⟨s.start, ·⟩)

/-- What follows the scheme. -/
def afterScheme? (url : Text) : Option Fragment :=
  (schemeEnd? (Text.bytes url)).bind fun i => part? url ⟨i, Text.byteLength url⟩

/-- The host of an address, and where it stands (`extract_host`). -/
def host? (url : Text) : Option Fragment := (hostSpan? (Text.bytes url)).bind (part? url)

end ContentFilter.Url

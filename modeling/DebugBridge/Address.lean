import DebugBridge.Text.Blank
import DebugBridge.Text.Hex

/-!
# Address — contract addresses and the keys they are known by

Addresses come from the engine as twenty bytes, and from calls and from the debugger as texts in
several spellings. An `AddressKey` is the one text that stands for all spellings: no blanks at the
ends, no `0x`, small letters. Every address is turned into a key where it enters, so look-ups never
miss on a spelling.

```
  Address  --key-->  AddressKey  --address?-->  Address
                         ^
  " 0xAb… "  --normalize-+
```
-/

namespace DebugBridge

/-- A contract address. -/
structure Address where
  bytes : List UInt8
  size : bytes.length = 20
  deriving DecidableEq, Repr

/-- An address as the keys of look-ups have it. A text that is no address has a key, too. -/
structure AddressKey where
  text : String
  deriving DecidableEq, Repr

namespace AddressKey

/-- The characters after `0x` or `0X`, or all where neither stands at the front. -/
def withoutPrefix : List Char → List Char
  | '0' :: 'x' :: rest | '0' :: 'X' :: rest => rest
  | cs => cs

/-- **The key of a spelling**: blanks at the ends, then one prefix, then capitals go. -/
def normalize (spelling : String) : AddressKey :=
  ⟨String.ofList ((withoutPrefix (Text.trimChars spelling.toList)).map Char.toLower)⟩

/-- The key of an address: its forty digits. -/
def ofAddress (address : Address) : AddressKey :=
  ⟨String.ofList (Hex.ofBytes address.bytes)⟩

/-- The address that a key stands for: forty digits, which may still have a `0x` in front. -/
def address? (key : AddressKey) : Option Address :=
  let digits :=
    match key.text.toList with
    | '0' :: 'x' :: rest => rest
    | cs => cs
  match Hex.toBytes? digits with
  | some bytes => if size : bytes.length = 20 then some ⟨bytes, size⟩ else none
  | none => none

end AddressKey

end DebugBridge

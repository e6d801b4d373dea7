import DualDenom.Config

/-!
# Configurations and module accounts as JSON

The library that writes and reads JSON is a parameter. It is given a record, the
fields of an object in order, to write, and a declaration, the names and types
of these fields, to read by.
-/

namespace DualDenom

namespace Json

inductive FieldType
  | text
  | amount
  /-- A list of names that are all known. -/
  | names (known : List String)

inductive FieldValue
  | text (s : String)
  | amount (n : Amount)
  | names (items : List String)
  deriving DecidableEq

abbrev Declaration := List (String × FieldType)

abbrev Record := List (String × FieldValue)

structure Library where
  write? : Record → Option String
  /-- Has the fields in the order declared. -/
  read? : Declaration → String → Option Record

end Json

open Json

namespace Config

def declaration : Declaration :=
  [("evm_denom", .text), ("cosmos_denom", .text), ("conversion_module", .text),
    ("multiplier", .amount)]

def record (c : Config) : Record :=
  [("evm_denom", .text c.evmDenom), ("cosmos_denom", .text c.cosmosDenom),
    ("conversion_module", .text c.conversionModule), ("multiplier", .amount c.multiplier)]

def ofRecord? : Record → Option Config
  | [(_, .text evmDenom), (_, .text cosmosDenom), (_, .text conversionModule),
      (_, .amount multiplier)] =>
    some { evmDenom, cosmosDenom, conversionModule, multiplier }
  | _ => none

def toJson? (L : Library) (c : Config) : Option String := L.write? c.record

/-- The configuration need not pass its check. -/
def ofJson? (L : Library) (s : String) : Option Config := (L.read? declaration s).bind ofRecord?

end Config

namespace ModuleAccount

def declaration : Declaration :=
  [("name", .text), ("address", .text),
    ("permissions", .names [Permission.minter.text, Permission.burner.text])]

def record (m : ModuleAccount) : Record :=
  [("name", .text m.name), ("address", .text m.address),
    ("permissions", .names (m.permissions.map Permission.text))]

def ofRecord? : Record → Option ModuleAccount
  | [(_, .text name), (_, .text address), (_, .names items)] =>
    (items.mapM Permission.ofText?).map fun permissions => { name, address, permissions }
  | _ => none

def toJson? (L : Library) (m : ModuleAccount) : Option String := L.write? m.record

def ofJson? (L : Library) (s : String) : Option ModuleAccount :=
  (L.read? declaration s).bind ofRecord?

end ModuleAccount

end DualDenom

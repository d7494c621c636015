/-
StepTone.Table.Register — the register that holds a delay.

* `Width` — its bit width; only 8 and 16 bits are built, and any width but 16
  counts as 8 where its capacity is asked for.
* `Encoding` — the delay itself, or the capacity less the delay.
* `Options` — both together.
-/
import StepTone.Fault
import StepTone.Text.Blank
import StepTone.Text.Letter

namespace StepTone.Table

/-! ## Width -/

/-- The bit width of a register. -/
structure Width where
  bits : Int64
deriving DecidableEq, Repr

namespace Width

def eight : Width := ⟨8⟩
def sixteen : Width := ⟨16⟩

/-- The largest value that the register holds. -/
def max (w : Width) : UInt16 :=
  if w = sixteen then 65535 else 255

/-- The width can be built. -/
def isBuilt (w : Width) : Bool :=
  w = eight || w = sixteen

/-- The fault of a width that cannot be built. -/
def unbuilt (bits : Int64) : Fault :=
  .invalid "table" "register_bits" ("must be 8 or 16, got " ++ toString bits.toInt)

/-- The width with the given number of bits. -/
def ofBits (bits : Int64) : Except Fault Width :=
  if (Width.mk bits).isBuilt then .ok ⟨bits⟩ else .error (unbuilt bits)

end Width

/-! ## Encoding -/

/-- How a delay is stored. -/
inductive Encoding where
  /-- The delay itself. -/
  | direct
  /-- The largest register value less the delay, for firmware that jumps into
  the halt block at an offset. -/
  | inverted
deriving DecidableEq, Repr

namespace Encoding

/-- The encoding that a number stands for: one is inverted, and every other number is
direct. -/
def ofNumber (n : Int64) : Encoding :=
  if n = 1 then .inverted else .direct

/-- The name of an encoding. -/
def name : Encoding → String
  | .direct => "direct"
  | .inverted => "inverted"

/-- The encoding with the given name, whatever its case and the blanks around
it; no name is the direct encoding. -/
def ofName (name : String) : Except Fault Encoding :=
  let key := Text.lower (Text.trim name)
  if key = "direct" ∨ key = "" then .ok .direct
  else if key = "inverted" then .ok .inverted
  else .error (.invalid "table" "encoding"
    ("'" ++ name ++ "' is not a valid choice (valid: direct, inverted)"))

/-- The register value for a delay, in sixteen bits. -/
def encode (e : Encoding) (w : Width) (delay : UInt16) : UInt16 :=
  match e with
  | .direct => delay
  | .inverted => w.max - delay

end Encoding

/-- Width and encoding of the register. -/
structure Options where
  width : Width := .eight
  encoding : Encoding := .direct
deriving DecidableEq, Repr

end StepTone.Table

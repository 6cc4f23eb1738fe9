/-!
# Sample formats

The encodings of a PCM sample. A stream type holds the code of a format, the metadata its name.
-/

namespace MediaChain

inductive SampleFormat
  | s8
  | u8
  | s16
  | u16
  | s32
  | u32
  | float
  | double
deriving DecidableEq, Repr

namespace SampleFormat

/-- Every format, in the order of their codes. -/
def all : List SampleFormat := [s8, u8, s16, u16, s32, u32, float, double]

def name : SampleFormat → String
  | s8 => "S8"
  | u8 => "U8"
  | s16 => "S16"
  | u16 => "U16"
  | s32 => "S32"
  | u32 => "U32"
  | float => "FLOAT"
  | double => "DOUBLE"

def code : SampleFormat → Int64
  | s8 => 0
  | u8 => 1
  | s16 => 2
  | u16 => 3
  | s32 => 4
  | u32 => 5
  | float => 6
  | double => 7

/-- The format with a code, if the code is one. -/
def ofCode? (code : Int64) : Option SampleFormat := all.find? (·.code = code)

theorem ofCode?_code (f : SampleFormat) : ofCode? f.code = some f := by
  cases f <;> decide

/-- The bytes that one sample takes. -/
def bytesPerSample : SampleFormat → Nat
  | s8 | u8 => 1
  | s16 | u16 => 2
  | s32 | u32 | float => 4
  | double => 8

end SampleFormat

end MediaChain

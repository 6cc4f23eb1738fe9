import MediaChain.Text.Utf8

/-!
# Lines

`Line.split` takes the first line from bytes; what stands behind its terminator is kept.
-/

namespace MediaChain

namespace Line

def newline : UInt8 := 0x0A
def carriageReturn : UInt8 := 0x0D

/-- A line without the carriage return that may end it. -/
def chomp (line : Bytes) : Bytes :=
  if line.getLast? = some carriageReturn then line.dropLast else line

/-- The first line of some bytes, without its terminator, and the bytes behind it. Without a
newline all bytes are one line. -/
def split (bs : Bytes) : Bytes × Bytes :=
  (chomp (bs.takeWhile (· ≠ newline)), (bs.dropWhile (· ≠ newline)).drop 1)

end Line

end MediaChain

/-
Vectors, and the text in which coordinates are given.

Each component is rounded on its own, and sums of products are taken from left to
right, so that every operation below fixes its result to the last bit.

The text of a vector is its three components with colons between them.  Reading
also takes a waypoint, `GPS:name:x:y:z` with anything behind a further colon: of a
waypoint only the coordinates are kept.
-/
import DeviceScript.Numeral.Shortest
import DeviceScript.Text.Blank

namespace DeviceScript

structure Vec3 where
  x : Double
  y : Double
  z : Double
deriving DecidableEq

namespace Vec3

def map (f : Double → Double) (v : Vec3) : Vec3 := ⟨f v.x, f v.y, f v.z⟩

def add (v w : Vec3) : Vec3 := ⟨v.x + w.x, v.y + w.y, v.z + w.z⟩

def sub (v w : Vec3) : Vec3 := ⟨v.x - w.x, v.y - w.y, v.z - w.z⟩

def neg (v : Vec3) : Vec3 := v.map fun a => -a

def scale (v : Vec3) (k : Double) : Vec3 := v.map fun a => a * k

def shrink (v : Vec3) (k : Double) : Vec3 := v.map fun a => a / k

def dot (v w : Vec3) : Double := v.x * w.x + v.y * w.y + v.z * w.z

def cross (v w : Vec3) : Vec3 :=
  ⟨v.y * w.z - w.y * v.z, v.z * w.x - w.z * v.x, v.x * w.y - w.x * v.y⟩

def length (v : Vec3) : Double := (v.dot v).sqrt

/-- The part of `v` along `w`. -/
def along (v w : Vec3) : Vec3 := (w.scale (v.dot w)).scale (.ofInt .double 1 / w.dot w)

/-- The part of `v` across `w`. -/
def across (v w : Vec3) : Vec3 := v.sub (v.along w)

def chars (v : Vec3) : List Char := v.x.chars ++ ':' :: (v.y.chars ++ ':' :: v.z.chars)

def text (v : Vec3) : String := String.ofList v.chars

/-- The fields that hold the coordinates, and those behind them. -/
def coordinateFields (fields : List (List Char)) : List (List Char) :=
  if fields.head?.map Text.trim = some ['G', 'P', 'S'] then fields.drop 2 else fields

def read? (s : List Char) : Option Vec3 :=
  match coordinateFields ((Text.trim s).splitOn ':') with
  | x :: y :: z :: _ => do
    let x ← Numeral.Binary.read? .double (Text.trim x)
    let y ← Numeral.Binary.read? .double (Text.trim y)
    let z ← Numeral.Binary.read? .double (Text.trim z)
    return ⟨x, y, z⟩
  | _ => none

end Vec3
end DeviceScript

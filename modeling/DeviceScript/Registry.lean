/-
What a device stands for when a condition names no property.

A registry answers for a kind of device with a handler, or with nothing.  It is a
plain function, so the handler it gives for a device may be one that speaks for
another; the registries that `install` builds keep each handler under its own
device.
-/
import DeviceScript.Selector

namespace DeviceScript

/-- What a condition asks about one kind of device. -/
structure Handler where
  /-- The device of the conditions that the handler is asked for. -/
  device : Device
  boolean : BooleanProperty
  /-- The numeric property that goes with a direction. -/
  numeric : Direction → NumericProperty
  text : TextProperty
  direction : Direction
  /-- The devices that an aggregate goes over when its condition names a selector. -/
  provider : Selector → Selector := id

/-- The properties that a bare value is compared with, by the kind of the value. -/
structure Defaults where
  boolean : BooleanProperty
  numeric : NumericProperty
  text : TextProperty
  direction : Direction
deriving DecidableEq

/-- The handler of a device that has one numeric property for all directions. -/
def Defaults.handler (d : Defaults) (device : Device) : Handler where
  device := device
  boolean := d.boolean
  numeric _ := d.numeric
  text := d.text
  direction := d.direction

/-- The properties that a handler falls back on. -/
def Handler.defaults (h : Handler) : Defaults :=
  ⟨h.boolean, h.numeric h.direction, h.text, h.direction⟩

@[simp] theorem Defaults.defaults_handler (d : Defaults) (device : Device) :
    (d.handler device).defaults = d := rfl

structure Registry where
  handler? : Device → Option Handler

namespace Registry

def empty : Registry := ⟨fun _ => none⟩

/-- Puts a handler under its device, in place of any that was there. -/
def install (r : Registry) (h : Handler) : Registry :=
  ⟨fun d => if d = h.device then some h else r.handler? d⟩

/-- Sets the defaults of a device, in place of any it had. -/
def register (r : Registry) (device : Device) (defaults : Defaults) : Registry :=
  r.install (defaults.handler device)

/-- The defaults of a device. -/
def get? (r : Registry) (device : Device) : Option Defaults :=
  (r.handler? device).map Handler.defaults

@[simp] theorem get?_register_self (r : Registry) (device : Device) (defaults : Defaults) :
    (r.register device defaults).get? device = some defaults := by
  simp [register, install, get?, Defaults.handler, Handler.defaults]

theorem get?_register_of_ne (r : Registry) {device d : Device} (h : d ≠ device)
    (defaults : Defaults) : (r.register device defaults).get? d = r.get? d := by
  simp [register, install, get?, Defaults.handler, h]

/-- The defaults of every kind of device. -/
def standardDefaults : Device → Defaults
  | .piston => ⟨.power, .height, .name, .up⟩
  | .rotor => ⟨.power, .angle, .name, .clockwise⟩
  | .program => ⟨.running, .progress, .run, .up⟩
  | .timer => ⟨.running, .progress, .name, .up⟩
  | .light => ⟨.power, .range, .color, .up⟩
  | .projector => ⟨.power, .progress, .name, .up⟩
  | .merge => ⟨.connected, .progress, .name, .up⟩
  | .connector => ⟨.connected, .range, .name, .up⟩
  | .welder => ⟨.power, .range, .name, .up⟩
  | .grinder => ⟨.power, .range, .name, .up⟩
  | .door => ⟨.open, .closedRatio, .name, .up⟩
  | .display => ⟨.power, .fontSize, .text, .up⟩
  | .sound => ⟨.power, .volume, .sound, .up⟩

def standard : Registry := ⟨fun d => some ((standardDefaults d).handler d)⟩

end Registry
end DeviceScript

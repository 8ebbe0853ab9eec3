import Mathlib.Data.Fintype.Basic

/-!
# Deciding facts about all bytes

A table over the 256 bytes is checked byte by byte.
-/

set_option autoImplicit false

namespace Join.Library

/-- A decidable property of bytes can be decided for all of them. -/
instance decidableForallByte {property : UInt8 → Prop} [DecidablePred property] :
    Decidable (∀ byte, property byte) :=
  decidable_of_iff (∀ index : Fin 256, property ⟨⟨index⟩⟩)
    ⟨fun all byte => all byte.toFin, fun all _ => all _⟩

end Join.Library

import CellMachine.Proofs.Assembly.Statements

/-!
# Back behind the last statement

A failing statement is undone by cutting everything back to the sizes of a checkpoint, which is
exact for what has only been added to. A `#static` adds to the length of the static data in 64 bits,
and where the sum is none the data gets shorter (`Assembler.Cuts`). If no statement that is come to
below a failing one cuts away data of the checkpoint, a failing feed is back where its last
statement has left the assembler, but for the cursor and the macros. Otherwise it is so but for the
static data as well, of which nothing that was cut away comes back (`Assembler.feed_error_restores`).
-/

namespace CellMachine

/-! ## The front of the static data -/

namespace Assembler

/-- Static data that starts with `b` goes on to do so. -/
def Keeps (b : Buffer) (s s' : Assembler) : Prop :=
  b.toList <+: s.object.static.toList → b.toList <+: s'.object.static.toList

variable {b : Buffer} {s s' : Assembler} {e : AssemblyError}

instance : Std.Refl (Keeps b) := ⟨fun _ => id⟩

instance : Trans (Keeps b) (Keeps b) (Keeps b) where
  trans h h' := h' ∘ h

end Assembler

end CellMachine

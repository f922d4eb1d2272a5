import DartModels.Dart.Field

/-!
# The source of a class

A class of the catalog as Dart source.

A class has its fields, a constructor with named parameters, a factory that
reads decoded JSON, a method that writes it, and, if the user asks for it, a
method that copies an object with some fields replaced. A class without fields
keeps all of these, in a form without parameters.

The source is built as lines with their level of indentation, and the width of
a level enters when they are written out. An empty line is never indented.

## Main definitions

* `Line`: A line with its level.
* `declaration`: The lines of a class.
* `source`: The source of a class.
-/

namespace DartModels

namespace Dart

/-- A line of source with its level of indentation. -/
structure Line where
  level : Nat
  text : String

/-- A line written out. -/
def Line.render (indent : Nat) (line : Line) : String :=
  if line.text.isEmpty then "\n"
  else String.ofList (List.replicate (indent * line.level) ' ') ++ line.text ++ "\n"

/-- The empty line between the parts of a class. -/
def gap : Line := ⟨0, ""⟩

/-- The declarations of the fields. -/
def fieldLines (o : Options) (c : Catalog) (d : ClassDef) : List Line :=
  d.fields.map (fun f => ⟨1, s!"final {(slotType o c f.slot).render} {f.name};"⟩) ++
    (if d.fields.isEmpty then [] else [gap])

/-- Whether the constructor asks for a field. -/
def isRequired (o : Options) (f : Field) : Bool :=
  o.nullSafety && !f.slot.nullable

/-- The constructor. -/
def constructorLines (o : Options) (d : ClassDef) : List Line :=
  if d.fields.isEmpty then [⟨1, s!"{d.name}();"⟩]
  else
    [⟨1, d.name ++ "(\x7b"⟩] ++
      d.fields.map (fun f =>
        ⟨2, if isRequired o f then s!"required this.{f.name}," else s!"this.{f.name},"⟩) ++
      [⟨1, "\x7d);"⟩]

/-- The factory that reads decoded JSON. -/
def fromJsonLines (o : Options) (c : Catalog) (d : ClassDef) : List Line :=
  [⟨1, s!"factory {d.name}.fromJson({Ty.jsonMap.render} json) " ++ "\x7b"⟩] ++
    (if d.fields.isEmpty then [⟨2, s!"return {d.name}();"⟩]
     else
      [⟨2, s!"return {d.name}("⟩] ++
        d.fields.map (fun f => ⟨3, s!"{f.name}: {(readField o c f).render},"⟩) ++
        [⟨2, ");"⟩]) ++
    [⟨1, "\x7d"⟩]

/-- The method that writes JSON. -/
def toJsonLines (o : Options) (d : ClassDef) : List Line :=
  [⟨1, s!"{Ty.jsonMap.render} toJson() " ++ "\x7b"⟩] ++
    (if d.fields.isEmpty then [⟨2, "return <String, dynamic>\x7b\x7d;"⟩]
     else
      [⟨2, "return <String, dynamic>\x7b"⟩] ++
        d.fields.map (fun f => ⟨3, s!"{literal f.key}: {(writeField o f).render},"⟩) ++
        [⟨2, "\x7d;"⟩]) ++
    [⟨1, "\x7d"⟩]

/-- The method that copies an object. Every replacement may be left out, so
    all parameters may be null. -/
def copyWithLines (o : Options) (c : Catalog) (d : ClassDef) : List Line :=
  if d.fields.isEmpty then
    [⟨1, s!"{d.name} copyWith() " ++ "\x7b"⟩, ⟨2, s!"return {d.name}();"⟩, ⟨1, "\x7d"⟩]
  else
    [⟨1, s!"{d.name} copyWith(" ++ "\x7b"⟩] ++
      d.fields.map (fun f =>
        ⟨2, s!"{(optional o (typeOf o c f.slot.shape) true).render} {f.name},"⟩) ++
      [⟨1, "\x7d) \x7b"⟩, ⟨2, s!"return {d.name}("⟩] ++
      d.fields.map (fun f => ⟨3, s!"{f.name}: {f.name} ?? this.{f.name},"⟩) ++
      [⟨2, ");"⟩, ⟨1, "\x7d"⟩]

/-- The lines of a class. -/
def declaration (o : Options) (c : Catalog) (d : ClassDef) : List Line :=
  [⟨0, s!"class {d.name} " ++ "\x7b"⟩] ++ fieldLines o c d ++ constructorLines o d ++ [gap] ++
    fromJsonLines o c d ++ [gap] ++ toJsonLines o d ++
    (if o.copyWith then gap :: copyWithLines o c d else []) ++ [⟨0, "\x7d"⟩]

/-- The source of a class. -/
def source (o : Options) (c : Catalog) (d : ClassDef) : String :=
  String.join ((declaration o c d).map (Line.render o.indent))

end Dart

end DartModels

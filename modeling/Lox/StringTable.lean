import Lox.Table

/-!
# String objects

A string object has a content and an identity, its serial number.  A `StringTable` numbers them:
`intern` hands out one object for each content, however often it is asked, and `fresh` makes an
object that the table will hand out to nobody.  What `intern` hands out is from then on the object
for its content (`find?_intern`), and no other content gets another object.
-/

namespace Lox

/-- A string object. -/
structure StringObject where
  /-- Tells the object from all others. -/
  serial : Nat
  content : String
  deriving DecidableEq, Repr

/-- The objects have the contents they are found under. -/
def Named (objects : Table StringObject) : Prop :=
  ∀ content object, objects.find? content = some object → object.content = content

/-- The string objects in use, one for each content. -/
structure StringTable where
  objects : Table StringObject
  /-- The serial number of the next object. -/
  next : Nat
  named : Named objects

theorem Named.insert {objects : Table StringObject} (h : Named objects) (object : StringObject) :
    Named (objects.insert object.content object) := by
  intro content other found
  rw [Table.find?_insert] at found
  split at found
  · next same => rw [← Option.some.inj found, same]
  · exact h content other found

namespace StringTable

/-- No string objects yet. -/
def empty : StringTable :=
  ⟨.empty, 0, fun content _ found => nomatch (Table.find?_empty content).symm.trans found⟩

instance : Inhabited StringTable := ⟨empty⟩

/-- A new object, which stays out of the table. -/
def fresh (t : StringTable) (content : String) : StringObject × StringTable :=
  (⟨t.next, content⟩, { t with next := t.next + 1 })

/-- The object for a content, made when the content is first asked for. -/
def intern (t : StringTable) (content : String) : StringObject × StringTable :=
  match t.objects.find? content with
  | some object => (object, t)
  | none =>
    let object : StringObject := ⟨t.next, content⟩
    (object, ⟨t.objects.insert content object, t.next + 1, t.named.insert object⟩)

/-- After it has been asked for, a content has the object that was handed out, and every other
content has the object it had. -/
theorem find?_intern (t : StringTable) (content other : String) :
    (t.intern content).2.objects.find? other =
      if content = other then some (t.intern content).1 else t.objects.find? other := by
  unfold intern
  split
  · next object known =>
    split
    · next h => rw [← h, known]
    · rfl
  · exact Table.find?_insert _ _ _ _

/-- What is handed out for a content has that content. -/
theorem content_intern (t : StringTable) (content : String) :
    (t.intern content).1.content = content := by
  unfold intern
  split
  · next object known => exact t.named content object known
  · rfl

/-- The contents with an object, in order. -/
def contents (t : StringTable) : List String := t.objects.toList.map (·.1)

end StringTable

end Lox

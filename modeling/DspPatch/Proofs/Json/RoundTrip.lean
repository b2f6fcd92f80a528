import DspPatch.Proofs.Json.Spelling
import DspPatch.Proofs.Table

/-!
Values and what is written for them. The text of a value spells one document (`Document.read_compact`). The document
denotes the value again where the value fits: its keys are distinct, its whole numbers have 64 bits and its containers are
not nested too deeply (`Fits.value?_document`). Whatever a document denotes fits (`fits_of_value?`).
-/
namespace DspPatch.Json

/-- A fact holds of all values that passes from the parts of a container to the container. -/
@[elab_as_elim]
theorem Value.parts_induction {motive : Value → Prop} (null : motive .null) (bool : ∀ b, motive (.bool b))
    (number : ∀ n, motive (.number n)) (string : ∀ text, motive (.string text))
    (array : ∀ items, (∀ item ∈ items, motive item) → motive (.array items))
    (object : ∀ members : List (String × Value), (∀ member ∈ members, motive member.2) → motive (.object members))
    (v : Value) : motive v :=
  @Value.rec motive (fun items => ∀ item ∈ items, motive item) (fun members => ∀ member ∈ members, motive member.2)
    (fun member => motive member.2) null bool number string array object nofun
    (fun _ _ first rest => List.forall_mem_cons.mpr ⟨first, rest⟩) nofun
    (fun _ _ first rest => List.forall_mem_cons.mpr ⟨first, rest⟩) (fun _ _ value => value) v

@[elab_as_elim]
theorem Document.parts_induction {motive : Document → Prop} (null : motive .null) (bool : ∀ b, motive (.bool b))
    (number : ∀ l, motive (.number l)) (string : ∀ text, motive (.string text))
    (array : ∀ items, (∀ item ∈ items, motive item) → motive (.array items))
    (object : ∀ members : List (Option String × Document), (∀ member ∈ members, motive member.2) →
      motive (.object members))
    (document : Document) : motive document :=
  @Document.rec motive (fun items => ∀ item ∈ items, motive item) (fun members => ∀ member ∈ members, motive member.2)
    (fun member => motive member.2) null bool number string array object nofun
    (fun _ _ first rest => List.forall_mem_cons.mpr ⟨first, rest⟩) nofun
    (fun _ _ first rest => List.forall_mem_cons.mpr ⟨first, rest⟩) (fun _ _ value => value) document

/-- The text of the double denotes the double. -/
def ReadsBack (x : Float) : Prop := Value.read (doubleText x) = some (.number (.double x))

/-- The literal that is written for a number. -/
def Number.literal : Number → Literal
  | integer n => integerLiteral n
  | double x => ((readLiteral (doubleText x).toList).map Prod.fst).getD ⟨false, [], none, none⟩

/-- Only a number literal is read as one. -/
theorem readLiteral_of_readValue {fuel : Nat} {cs after : List Char} {l : Literal}
    (read : readValue fuel cs = some (.number l, after)) : readLiteral cs = some (l, after) := by
  cases fuel with
  | zero => cases read
  | succ fuel =>
    unfold readValue at read
    split at read
    next => cases read
    next => cases read
    next => cases read
    next =>
      obtain ⟨_, _, same⟩ := Option.map_eq_some_iff.mp read
      cases same
    next =>
      split at read
      next => cases read
      next =>
        obtain ⟨_, _, same⟩ := Option.map_eq_some_iff.mp read
        cases same
    next =>
      split at read
      next => cases read
      next =>
        obtain ⟨_, _, same⟩ := Option.map_eq_some_iff.mp read
        cases same
    next =>
      obtain ⟨_, isLiteral, same⟩ := Option.map_eq_some_iff.mp read
      cases same
      exact isLiteral

theorem value?_eq_number {room : Nat} {document : Document} {n : Number}
    (isValue : document.value? room = some (.number n)) : ∃ l, document = .number l ∧ l.number? = some n := by
  cases document with
  | number l => simpa [Document.value?] using isValue
  | null | bool b | string text => simp [Document.value?] at isValue
  | array documents | object documents => cases room <;> simp [Document.value?] at isValue

theorem skipSpace_of_unspaced {cs : List Char} (unspaced : ∀ c ∈ cs, isSpace c = false) : skipSpace cs = cs := by
  cases cs with
  | nil => rfl
  | cons c more => exact List.dropWhile_cons_of_neg (Bool.eq_false_iff.mp (unspaced c List.mem_cons_self))

/-- The text of a double that reads back is one literal, which denotes the double. -/
theorem ReadsBack.literal {x : Float} (readsBack : ReadsBack x) :
    readLiteral (doubleText x).toList = some ((Number.double x).literal, []) ∧
      (Number.double x).literal.number? = some (.double x) := by
  have solid : ∀ c ∈ (doubleText x).toList, isSpace c = false := fun c member =>
    (Bool.not_eq_true' _).mp (List.all_eq_true.mp (unspaced_doubleText x) c member)
  obtain ⟨document, isDocument, isValue⟩ := Option.bind_eq_some_iff.mp readsBack
  obtain ⟨l, rfl, isNumber⟩ := value?_eq_number isValue
  obtain ⟨⟨found, after⟩, isRead, ended⟩ := Option.bind_eq_some_iff.mp isDocument
  dsimp only at ended
  split at ended
  next done =>
    cases ended
    have isLiteral := readLiteral_of_readValue isRead
    rw [skipSpace_of_unspaced solid] at isLiteral
    have nothing : after = [] := by
      have suffix := (readLiteral_eq_some isLiteral).2
      rw [skipSpace_of_unspaced (fun c member => solid c (suffix.subset member))] at done
      exact List.isEmpty_iff.mp done
    subst nothing
    have same : (Number.double x).literal = l := by rw [Number.literal, isLiteral]; rfl
    exact same ▸ ⟨isLiteral, isNumber⟩
  next => cases ended

/-- A number is read from its text, whatever comes after it. -/
theorem readLiteral_text {n : Number} (readsBack : ∀ x, n = .double x → ReadsBack x) {rest : List Char}
    (stops : Stops rest) : readLiteral (n.text.toList ++ rest) = some (n.literal, rest) := by
  cases n with
  | integer n => exact readLiteral_integer n stops
  | double x => exact readLiteral_append (readsBack x rfl).literal.1 stops

mutual

/-- The document that is written for a value. -/
def Value.document : Value → Document
  | .null => .null
  | .bool b => .bool b
  | .number n => .number n.literal
  | .string text => .string (some text)
  | .array items => .array (Value.itemDocuments items)
  | .object members => .object (Value.memberDocuments members)

def Value.itemDocuments : List Value → List Document
  | [] => []
  | item :: rest => item.document :: Value.itemDocuments rest

def Value.memberDocuments : List (String × Value) → List (Option String × Document)
  | [] => []
  | (key, value) :: rest => (some key, value.document) :: Value.memberDocuments rest

end

mutual

/-- The doubles in a value, in order. -/
def Value.doubles : Value → List Float
  | .number (.double x) => [x]
  | .array items => Value.itemDoubles items
  | .object members => Value.memberDoubles members
  | _ => []

def Value.itemDoubles : List Value → List Float
  | [] => []
  | item :: rest => item.doubles ++ Value.itemDoubles rest

def Value.memberDoubles : List (String × Value) → List Float
  | [] => []
  | (_, value) :: rest => value.doubles ++ Value.memberDoubles rest

end

namespace Value

@[simp] theorem itemDocuments_eq_map (items : List Value) : itemDocuments items = items.map document := by
  induction items with
  | nil => rfl
  | cons item rest ih => rw [itemDocuments, ih, List.map_cons]

@[simp] theorem memberDocuments_eq_map (members : List (String × Value)) :
    memberDocuments members = members.map (fun member => (some member.1, member.2.document)) := by
  induction members with
  | nil => rfl
  | cons member rest ih => rw [memberDocuments, ih, List.map_cons]

@[simp] theorem itemDoubles_eq_flatMap (items : List Value) : itemDoubles items = items.flatMap doubles := by
  induction items with
  | nil => rfl
  | cons item rest ih => rw [itemDoubles, ih, List.flatMap_cons]

@[simp] theorem memberDoubles_eq_flatMap (members : List (String × Value)) :
    memberDoubles members = members.flatMap (fun member => member.2.doubles) := by
  induction members with
  | nil => rfl
  | cons member rest ih => rw [memberDoubles, ih, List.flatMap_cons]

@[simp] theorem compactItems_eq_map (items : List Value) : compactItems items = items.map compact := by
  induction items with
  | nil => rfl
  | cons item rest ih => rw [compactItems, ih, List.map_cons]

@[simp] theorem compactMembers_eq_map (members : List (String × Value)) :
    compactMembers members = members.map (fun member => quoted member.1 ++ ":" ++ member.2.compact) := by
  induction members with
  | nil => rfl
  | cons member rest ih => rw [compactMembers, ih, List.map_cons]

end Value

section Reading
variable {fuel : Nat} {cs after : List Char}

/-- A value begins with no blank and with no closing bracket. -/
theorem front_of_readValue {document : Document} (read : readValue fuel cs = some (document, after)) :
    ∃ c more, cs = c :: more ∧ isSpace c = false ∧ c ≠ ']' := by
  cases fuel with
  | zero => cases read
  | succ fuel =>
    cases cs with
    | nil => cases read
    | cons c more =>
      refine ⟨c, more, rfl, ?_, ?_⟩
      · by_contra space
        rw [Bool.not_eq_false] at space
        simp only [isSpace, Bool.or_eq_true, beq_iff_eq] at space
        rcases space with ((rfl | rfl) | rfl) | rfl <;> cases read
      · rintro rfl
        cases read

theorem skipSpace_of_front {c : Char} (visible : isSpace c = false) : skipSpace (c :: cs) = c :: cs :=
  List.dropWhile_cons_of_neg (Bool.eq_false_iff.mp visible)

theorem skipSpace_of_readValue {document : Document} (read : readValue fuel cs = some (document, after)) :
    skipSpace cs = cs := by
  obtain ⟨c, more, rfl, visible, -⟩ := front_of_readValue read
  exact skipSpace_of_front visible

/-- Where a number can be read it is read. -/
theorem readValue_of_readLiteral {l : Literal} (read : readLiteral cs = some (l, after)) :
    readValue (fuel + 1) cs = some (.number l, after) := by
  obtain ⟨⟨c, more, rfl, front⟩, -⟩ := readLiteral_eq_some read
  have other : ∀ d, d ≠ '-' → d.isDigit = false → c ≠ d := by
    rintro d unsigned undigited rfl
    rcases front with minus | digit
    · exact unsigned minus
    · cases digit.symm.trans undigited
  rw [readValue, read]
  · rfl
  all_goals exact fun _ same => other _ (by decide) (by decide) (List.cons.inj same).1

/-- What a reader takes part by part, with commas between the parts and `close` behind the last, it takes as a whole. -/
theorem readAll_intercalate {α β : Type} {readAll : Nat → List Char → Option (List β × List Char)} {close : Char}
    {spelling : α → String} {meaning : α → β} {parts : List α} (nonempty : parts ≠ [])
    (last : ∀ part ∈ parts, ∀ fuel rest, 2 * (spelling part).toList.length ≤ fuel →
      readAll (fuel + 2) ((spelling part).toList ++ close :: rest) = some ([meaning part], rest))
    (next : ∀ part ∈ parts, ∀ fuel rest, 2 * (spelling part).toList.length ≤ fuel →
      readAll (fuel + 2) ((spelling part).toList ++ ',' :: rest) =
        (readAll (fuel + 1) rest).map (fun found => (meaning part :: found.1, found.2)))
    {fuel : Nat} (enough : 2 * (",".intercalate (parts.map spelling)).toList.length + 2 ≤ fuel) (rest : List Char) :
    readAll fuel ((",".intercalate (parts.map spelling)).toList ++ close :: rest) = some (parts.map meaning, rest) := by
  induction parts generalizing fuel with
  | nil => exact absurd rfl nonempty
  | cons part more ih =>
    obtain ⟨fuel, rfl⟩ := Nat.exists_eq_add_of_le' (Nat.le_of_add_left_le enough)
    cases more with
    | nil =>
      rw [List.map_singleton, String.intercalate_singleton] at enough ⊢
      exact last part List.mem_cons_self fuel rest (by omega)
    | cons second more =>
      have comma : ",".toList = [','] := rfl
      rw [List.map_cons, List.map_cons, String.intercalate_cons_cons, String.toList_append, String.toList_append, comma,
        ← List.map_cons] at enough ⊢
      simp only [List.length_append, List.length_singleton] at enough
      rw [List.append_assoc, List.append_assoc, List.singleton_append, next part List.mem_cons_self fuel _ (by omega),
        ih (List.cons_ne_nil _ _) (fun other member => last other (.tail _ member))
          (fun other member => next other (.tail _ member)) (by omega)]
      rfl

/-- The text of the value is read as its document, whatever comes after it, in at most two steps for a character. -/
def Legible (v : Value) : Prop := ∀ fuel rest, 2 * v.compact.toList.length ≤ fuel → Stops rest →
  readValue (fuel + 1) (v.compact.toList ++ rest) = some (v.document, rest)

theorem stops_cons {c : Char} (mark : c = ',' ∨ c = ']' ∨ c = '\x7d') (rest : List Char) : Stops (c :: rest) := by
  rintro d same
  cases same
  exact mark

theorem Legible.readValue_skipSpace {v : Value} (legible : Legible v) (enough : 2 * v.compact.toList.length ≤ fuel)
    {rest : List Char} (stops : Stops rest) :
    readValue (fuel + 1) (skipSpace (v.compact.toList ++ rest)) = some (v.document, rest) := by
  have read := legible fuel rest enough stops
  rwa [skipSpace_of_readValue read]

theorem readItems_compact {items : List Value} (nonempty : items ≠ []) (legible : ∀ item ∈ items, Legible item)
    (enough : 2 * (",".intercalate (items.map Value.compact)).toList.length + 2 ≤ fuel) (rest : List Char) :
    readItems fuel ((",".intercalate (items.map Value.compact)).toList ++ ']' :: rest) =
      some (items.map Value.document, rest) := by
  refine readAll_intercalate nonempty (fun item member fuel rest small => ?_) (fun item member fuel rest small => ?_)
    enough rest
  all_goals
    rw [readItems, (legible item member).readValue_skipSpace small (stops_cons (by decide) rest)]
    rfl

theorem toList_quoted (text : String) (rest : List Char) :
    (quoted text).toList ++ rest = '"' :: (text.toList.flatMap escapeChar ++ '"' :: rest) := by
  simp only [quoted, String.toList_append, String.toList_ofList, List.append_assoc]
  rfl

theorem toList_member (key : String) (v : Value) (rest : List Char) : (quoted key ++ ":" ++ v.compact).toList ++ rest =
    '"' :: (key.toList.flatMap escapeChar ++ '"' :: ':' :: (v.compact.toList ++ rest)) := by
  rw [String.toList_append, String.toList_append, List.append_assoc, List.append_assoc, toList_quoted]
  rfl

theorem readMembers_compact {members : List (String × Value)} (nonempty : members ≠ [])
    (legible : ∀ member ∈ members, Legible member.2)
    (enough : 2 * (",".intercalate (Value.compactMembers members)).toList.length + 2 ≤ fuel) (rest : List Char) :
    readMembers fuel ((",".intercalate (Value.compactMembers members)).toList ++ '\x7d' :: rest) =
      some (Value.memberDocuments members, rest) := by
  rw [Value.compactMembers_eq_map] at enough ⊢
  rw [Value.memberDocuments_eq_map]
  refine readAll_intercalate nonempty (fun member listed fuel rest small => ?_) (fun member listed fuel rest small => ?_)
    enough rest
  all_goals
    have enoughInside : 2 * member.2.compact.toList.length ≤ fuel := by
      simp only [String.toList_append, List.length_append] at small
      omega
    rw [toList_member, readMembers]
    change (readString _).bind _ = _
    rw [readString_escaped, String.ofList_toList]
    change (readValue (fuel + 1) (skipSpace _)).bind _ = _
    rw [(legible member listed).readValue_skipSpace enoughInside (stops_cons (by decide) rest)]
    rfl

end Reading

theorem toList_array (items : List Value) (rest : List Char) : (Value.array items).compact.toList ++ rest =
    '[' :: ((",".intercalate (items.map Value.compact)).toList ++ ']' :: rest) := by
  rw [Value.compact, Value.compactItems_eq_map, String.toList_append, String.toList_append, List.append_assoc,
    List.append_assoc]
  rfl

theorem toList_object (members : List (String × Value)) (rest : List Char) :
    (Value.object members).compact.toList ++ rest =
      '\x7b' :: ((",".intercalate (Value.compactMembers members)).toList ++ '\x7d' :: rest) := by
  rw [Value.compact, String.toList_append, String.toList_append, List.append_assoc, List.append_assoc]
  rfl

theorem readValue_array {fuel : Nat} {c : Char} (visible : isSpace c = false) (inside : c ≠ ']') (cs : List Char) :
    readValue (fuel + 1) ('[' :: c :: cs) =
      (readItems fuel (c :: cs)).map (fun found => (.array found.1, found.2)) := by
  rw [readValue, skipSpace_of_front visible]
  split
  next same => exact absurd (List.cons.inj same).1 inside
  next => rfl

theorem toList_intercalate_cons (text : String) (texts : List String) (close : Char)
    (mark : close = ',' ∨ close = ']' ∨ close = '\x7d') (rest : List Char) : ∃ behind, Stops behind ∧
      (",".intercalate (text :: texts)).toList ++ close :: rest = text.toList ++ behind := by
  cases texts with
  | nil => exact ⟨close :: rest, stops_cons mark rest, by rw [String.intercalate_singleton]⟩
  | cons second more =>
    refine ⟨',' :: ((",".intercalate (second :: more)).toList ++ close :: rest), stops_cons (by decide) _, ?_⟩
    rw [String.intercalate_cons_cons, String.toList_append, String.toList_append, List.append_assoc, List.append_assoc]
    rfl

theorem legible_array {items : List Value} (legible : ∀ item ∈ items, Legible item) : Legible (.array items) := by
  intro fuel rest enough stops
  rw [← List.append_nil (Value.array items).compact.toList, toList_array] at enough
  simp only [List.length_cons, List.length_append, List.length_nil] at enough
  rw [toList_array, Value.document, Value.itemDocuments_eq_map]
  cases items with
  | nil => rfl
  | cons item more =>
    have read := readItems_compact (List.cons_ne_nil item more) legible (show _ ≤ fuel by omega) rest
    obtain ⟨behind, stopsBehind, same⟩ :=
      toList_intercalate_cons item.compact (more.map Value.compact) ']' (by decide) rest
    rw [List.map_cons, same] at read ⊢
    obtain ⟨c, cs, front, visible, inside⟩ :=
      front_of_readValue (legible item List.mem_cons_self _ behind (Nat.le_refl _) stopsBehind)
    rw [front] at read ⊢
    rw [readValue_array visible inside, read]
    rfl

theorem legible_object {members : List (String × Value)} (legible : ∀ member ∈ members, Legible member.2) :
    Legible (.object members) := by
  intro fuel rest enough stops
  rw [← List.append_nil (Value.object members).compact.toList, toList_object] at enough
  simp only [List.length_cons, List.length_append, List.length_nil] at enough
  rw [toList_object, Value.document]
  cases members with
  | nil => rfl
  | cons member more =>
    have read := readMembers_compact (List.cons_ne_nil member more) legible (show _ ≤ fuel by omega) rest
    rw [Value.compactMembers] at read ⊢
    obtain ⟨behind, -, same⟩ := toList_intercalate_cons (quoted member.1 ++ ":" ++ member.2.compact)
      (Value.compactMembers more) '\x7d' (by decide) rest
    rw [same, toList_member] at read ⊢
    change (readMembers fuel ('"' :: _)).map _ = _
    rw [read]
    rfl

/-- The text of a value is read as its document, where the doubles in it read back. -/
theorem legible_of_readsBack (v : Value) (readsBack : ∀ x ∈ v.doubles, ReadsBack x) : Legible v := by
  induction v using Value.parts_induction with
  | null => exact fun _ _ _ _ => rfl
  | bool b => cases b <;> exact fun _ _ _ _ => rfl
  | number n =>
    intro fuel rest _ stops
    refine readValue_of_readLiteral (readLiteral_text ?_ stops)
    rintro x rfl
    exact readsBack x List.mem_cons_self
  | string text =>
    intro fuel rest _ _
    rw [Value.compact, toList_quoted]
    change (readString _).map _ = _
    rw [readString_escaped, String.ofList_toList]
    rfl
  | array items ih =>
    rw [Value.doubles, Value.itemDoubles_eq_flatMap] at readsBack
    exact legible_array (fun item member =>
      ih item member (fun x inside => readsBack x (List.mem_flatMap.mpr ⟨item, member, inside⟩)))
  | object members ih =>
    rw [Value.doubles, Value.memberDoubles_eq_flatMap] at readsBack
    exact legible_object (fun member listed =>
      ih member listed (fun x inside => readsBack x (List.mem_flatMap.mpr ⟨member, listed, inside⟩)))

/-- The text of a value spells its document. -/
theorem Document.read_compact {v : Value} (readsBack : ∀ x ∈ v.doubles, ReadsBack x) :
    Document.read v.compact = some v.document := by
  have read := legible_of_readsBack v readsBack (2 * v.compact.toList.length + 1) [] (Nat.le_succ _) nofun
  rw [List.append_nil] at read
  rw [Document.read, skipSpace_of_readValue read]
  change (readValue _ _).bind _ = _
  rw [read]
  rfl

/-- A value that may stand where at most `room` containers are nested: its keys are distinct and its whole numbers have
    64 bits. -/
inductive Fits : Nat → Value → Prop
  | null {room : Nat} : Fits room .null
  | bool {room : Nat} {b : Bool} : Fits room (.bool b)
  | integer {room : Nat} {n : Int} (inRange : InRange n) : Fits room (.number (.integer n))
  | double {room : Nat} {x : Float} : Fits room (.number (.double x))
  | string {room : Nat} {text : String} : Fits room (.string text)
  | array {room : Nat} {items : List Value} (each : ∀ item ∈ items, Fits room item) : Fits (room + 1) (.array items)
  | object {room : Nat} {members : List (String × Value)} (distinct : (members.map Prod.fst).Nodup)
      (each : ∀ member ∈ members, Fits room member.2) : Fits (room + 1) (.object members)

theorem values?_map_document {room : Nat} {items : List Value}
    (each : ∀ item ∈ items, item.document.value? room = some item) :
    Document.values? room (items.map Value.document) = some items := by
  induction items with
  | nil => rfl
  | cons item rest ih =>
    rw [List.forall_mem_cons] at each
    rw [List.map_cons, Document.values?, each.1, ih each.2]
    rfl

theorem memberValues?_map_document {room : Nat} {before members : List (String × Value)}
    (distinct : ((before ++ members).map Prod.fst).Nodup)
    (each : ∀ member ∈ members, member.2.document.value? room = some member.2) :
    Document.memberValues? room before (members.map (fun member => (some member.1, member.2.document))) =
      some (before ++ members) := by
  induction members generalizing before with
  | nil => rw [List.map_nil, Document.memberValues?, List.append_nil]
  | cons member rest ih =>
    rw [List.forall_mem_cons] at each
    have fresh : member.1 ∉ before.map Prod.fst := by
      rw [List.map_append, List.map_cons, List.nodup_append] at distinct
      exact fun known => distinct.2.2 member.1 known member.1 List.mem_cons_self rfl
    rw [← List.singleton_append, ← List.append_assoc] at distinct ⊢
    rw [List.map_append, List.map_singleton, List.singleton_append, Document.memberValues?, each.1]
    change Document.memberValues? room (putEntry member.1 member.2 before) _ = _
    rw [putEntry_of_not_mem member.2 fresh]
    exact ih distinct each.2

/-- The document of a value that fits denotes the value. -/
theorem Fits.value?_document {room : Nat} {v : Value} (fits : Fits room v) (readsBack : ∀ x ∈ v.doubles, ReadsBack x) :
    v.document.value? room = some v := by
  induction fits with
  | null => rfl
  | bool => rfl
  | integer inRange =>
    rw [Value.document, Document.value?, Number.literal, Literal.number?, integer?_integerLiteral inRange]
    rfl
  | @double _ x =>
    rw [Value.document, Document.value?, (readsBack x List.mem_cons_self).literal.2]
    rfl
  | string => rfl
  | @array _ items _ ih =>
    rw [Value.doubles, Value.itemDoubles_eq_flatMap] at readsBack
    rw [Value.document, Value.itemDocuments_eq_map, Document.value?, values?_map_document]
    · rfl
    · intro item member
      exact ih item member (fun x inside => readsBack x (List.mem_flatMap.mpr ⟨item, member, inside⟩))
  | @object _ members distinct _ ih =>
    rw [Value.doubles, Value.memberDoubles_eq_flatMap] at readsBack
    rw [Value.document, Value.memberDocuments_eq_map, Document.value?, memberValues?_map_document]
    · rfl
    · exact distinct
    · intro member listed
      exact ih member listed (fun x inside => readsBack x (List.mem_flatMap.mpr ⟨member, listed, inside⟩))

theorem exists_mem_of_values? {room : Nat} {documents : List Document} {items : List Value}
    (areItems : Document.values? room documents = some items) :
    ∀ item ∈ items, ∃ document ∈ documents, document.value? room = some item := by
  induction documents generalizing items with
  | nil =>
    cases areItems
    exact nofun
  | cons document rest ih =>
    obtain ⟨item, isItem, tail⟩ := Option.bind_eq_some_iff.mp areItems
    obtain ⟨more, areMore, same⟩ := Option.bind_eq_some_iff.mp tail
    cases same
    refine List.forall_mem_cons.mpr ⟨⟨document, List.mem_cons_self, isItem⟩, fun later member => ?_⟩
    obtain ⟨origin, listed, isLater⟩ := ih areMore later member
    exact ⟨origin, List.mem_cons_of_mem document listed, isLater⟩

theorem mem_putEntry {α : Type} {key : String} {value : α} {entries : List (String × α)} {entry : String × α}
    (member : entry ∈ putEntry key value entries) : entry ∈ entries ∨ entry.2 = value := by
  induction entries with
  | nil =>
    cases List.mem_singleton.mp member
    exact .inr rfl
  | cons first rest ih =>
    rw [putEntry] at member
    split at member
    all_goals rcases List.mem_cons.mp member with rfl | later
    · exact .inr rfl
    · exact .inl (List.mem_cons_of_mem _ later)
    · exact .inl List.mem_cons_self
    · exact (ih later).imp_left (List.mem_cons_of_mem _)

/-- The members that documents denote: their keys are distinct, and every value was there before or is denoted by one of
    the documents. -/
theorem memberValues?_members {room : Nat} {documents : List (Option String × Document)}
    {before members : List (String × Value)} (areMembers : Document.memberValues? room before documents = some members)
    (distinct : (before.map Prod.fst).Nodup) :
    (members.map Prod.fst).Nodup ∧ ∀ member ∈ members, member ∈ before ∨
      ∃ document ∈ documents, document.2.value? room = some member.2 := by
  induction documents generalizing before with
  | nil =>
    cases areMembers
    exact ⟨distinct, fun _ => .inl⟩
  | cons document rest ih =>
    obtain ⟨key, _, tail⟩ := Option.bind_eq_some_iff.mp areMembers
    obtain ⟨value, isValue, more⟩ := Option.bind_eq_some_iff.mp tail
    obtain ⟨distinctNow, denoted⟩ := ih more (nodup_keys_putEntry key value before distinct)
    refine ⟨distinctNow, fun member listed => ?_⟩
    rcases denoted member listed with written | ⟨origin, isOrigin, isMember⟩
    · rcases mem_putEntry written with old | new
      · exact .inl old
      · exact .inr ⟨document, List.mem_cons_self, new ▸ isValue⟩
    · exact .inr ⟨origin, List.mem_cons_of_mem document isOrigin, isMember⟩

theorem fits_of_number? {room : Nat} {l : Literal} {n : Number} (isNumber : l.number? = some n) :
    Fits room (.number n) := by
  cases n with
  | double x => exact .double
  | integer n =>
    rw [Literal.number?] at isNumber
    split at isNumber
    next isInteger =>
      cases isNumber
      exact .integer (inRange_of_integer? isInteger)
    next =>
      obtain ⟨_, _, same⟩ := Option.map_eq_some_iff.mp isNumber
      cases same

/-- Whatever a document denotes fits. -/
theorem fits_of_value? {room : Nat} {document : Document} {v : Value} (isValue : document.value? room = some v) :
    Fits room v := by
  induction document using Document.parts_induction generalizing room v with
  | null =>
    cases isValue
    exact .null
  | bool b =>
    cases isValue
    exact .bool
  | number l =>
    obtain ⟨n, isNumber, rfl⟩ := Option.map_eq_some_iff.mp isValue
    exact fits_of_number? isNumber
  | string text =>
    obtain ⟨_, _, rfl⟩ := Option.map_eq_some_iff.mp isValue
    exact .string
  | array documents ih =>
    cases room with
    | zero => cases isValue
    | succ room =>
      obtain ⟨items, areItems, rfl⟩ := Option.map_eq_some_iff.mp isValue
      refine .array (fun item member => ?_)
      obtain ⟨document, listed, isItem⟩ := exists_mem_of_values? areItems item member
      exact ih document listed isItem
  | object documents ih =>
    cases room with
    | zero => cases isValue
    | succ room =>
      obtain ⟨members, areMembers, rfl⟩ := Option.map_eq_some_iff.mp isValue
      obtain ⟨distinct, denoted⟩ := memberValues?_members areMembers List.nodup_nil
      refine .object distinct (fun member listed => ?_)
      obtain ⟨document, isDocument, isMember⟩ := (denoted member listed).resolve_left List.not_mem_nil
      exact ih document isDocument isMember

end DspPatch.Json

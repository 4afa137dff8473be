import Cuesheet.Stmt.Format
import Mathlib.Data.List.Nodup

/-!
# Reading what was written, one record at a time

What is written is an object in which no name stands twice, so its reader finds every field that it
asks for, whatever else stands in the object (`Json.fields?_object`). Tags and locations are such
other entries: a tagged node and a located one are read as the records that they hold.

In the other direction, a reader has its numbers from the value that it reads (`Json.Sourced`). This
goes from a value to its parts and on to the lists and records that are read from them.
-/

set_option autoImplicit false

namespace Cuesheet.Json

/-! ## Depth -/

/-- What stands in a field lies deeper than the record. This is what makes the depth of a value a
budget for reading it. -/
theorem depth_lt_of_mem_entries {entries : List (String × Json)} {name : String} {j : Json}
    (h : (name, j) ∈ entries) : j.depth < (object entries).depth := by
  induction entries with
  | nil => cases h
  | cons first rest ih =>
    obtain ⟨key, other⟩ := first
    simp only [depth, depthEntries] at ih ⊢
    rcases List.mem_cons.mp h with heq | h
    · cases heq
      omega
    · have := ih h
      omega

theorem depth_lt_of_mem_items {items : List Json} {j : Json} (h : j ∈ items) :
    j.depth < (array items).depth := by
  induction items with
  | nil => cases h
  | cons first rest ih =>
    simp only [depth, depthItems] at ih ⊢
    rcases List.mem_cons.mp h with rfl | h
    · omega
    · have := ih h
      omega

/-! ## Written records -/

theorem mapM_eq_some_map {α β : Type} {f : α → Option β} {g : α → β} {as : List α}
    (h : ∀ a ∈ as, f a = some (g a)) : as.mapM f = some (as.map g) := by
  induction as with
  | nil => rfl
  | cons a as ih =>
    rw [List.forall_mem_cons] at h
    rw [List.mapM_cons, h.1, ih h.2]
    rfl

/-- A name that does not occur has no entries. One that occurs twice would have two, and a reader
refuses such a field. -/
theorem entriesNamed_of_not_mem {entries : List (String × Json)} {name : String}
    (h : name ∉ entries.map (·.1)) : entriesNamed entries name = [] := by
  unfold entriesNamed
  rw [List.filterMap_eq_nil_iff]
  rintro ⟨key, value⟩ hentry
  have hne : key ≠ name := by
    rintro rfl
    exact h (List.mem_map_of_mem hentry)
  simp [hne]

theorem field?_of_mem {entries : List (String × Json)} {name : String} {value : Json}
    (hnodup : (entries.map (·.1)).Nodup) (h : (name, value) ∈ entries) :
    field? entries name = some (some value) := by
  have hnamed : entriesNamed entries name = [value] := by
    induction entries with
    | nil => cases h
    | cons first rest ih =>
      obtain ⟨key, other⟩ := first
      simp only [List.map_cons, List.nodup_cons] at hnodup
      rcases List.mem_cons.mp h with heq | h
      · cases heq
        have hrest := entriesNamed_of_not_mem hnodup.1
        unfold entriesNamed at hrest ⊢
        simp [hrest]
      · have hne : key ≠ name := by
          rintro rfl
          exact hnodup.1 (List.mem_map_of_mem h)
        have hrest := ih hnodup.2 h
        unfold entriesNamed at hrest ⊢
        simp [hne, hrest]
  rw [field?, hnamed]

/-- **The fields that a record asks for are found among other entries.** The order in which they
were written does not matter, and neither do the entries that nobody asks for. -/
theorem fields?_object {entries fields : List (String × Json)}
    (hnodup : (entries.map (·.1)).Nodup) (h : fields ⊆ entries) :
    (object entries).fields? (fields.map (·.1)) = some (fields.map fun f => some f.2) := by
  show (fields.map (·.1)).mapM (field? entries) = _
  rw [List.mapM_map]
  apply mapM_eq_some_map
  intro f hf
  exact field?_of_mem hnodup (h hf)

theorem listOf?_map {α : Type} {read : Json → Option α} {write : α → Json} {as : List α}
    (h : ∀ a ∈ as, read (write a) = some a) : listOf? read (.array (as.map write)) = some as := by
  show (as.map write).mapM read = _
  rw [List.mapM_map]
  exact (mapM_eq_some_map (g := id) h).trans (by rw [List.map_id])

/-- A node is read as a record of its kind. The tag stays in the record, as one of the entries that
nobody asks for. -/
theorem tagged?_node (nested : Bool) {kinds : List String} {kind : String}
    {fields : List (String × Json)} (hkind : kind ∈ kinds)
    (hnodup : (tagName :: fields.map (·.1)).Nodup) :
    tagged? nested kinds (node kind fields) = some (kind, node kind fields) := by
  have htag : field? ((tagName, .string kind) :: fields) tagName = some (some (.string kind)) :=
    field?_of_mem hnodup List.mem_cons_self
  simp [tagged?, node, htag, kindOf?, hkind]

/-! ## Fields -/

section

variable {α : Type} (read : Json → Option α)

@[simp] theorem required_some (j : Json) : required read (some j) = read j := rfl

@[simp] theorem withDefault_some (default : α) (j : Json) :
    withDefault read default (some j) = read j := rfl

end

@[simp] theorem string?_string (s : String) : string? (.string s) = some s := rfl

@[simp] theorem bool?_bool (b : Bool) : bool? (.bool b) = some b := rfl

@[simp] theorem keyword?_string (nested : Bool) (s : String) :
    keyword? nested (.string s) = some s := rfl

@[simp] theorem optional_ofString? (s : Option String) :
    optional string? (some (ofString? s)) = some s := by
  cases s <;> rfl

theorem listOf?_ofStrings (texts : List String) : listOf? string? (ofStrings texts) = some texts :=
  listOf?_map fun _ _ => rfl

/-- Only a finite number has a written form; all others are written as null. -/
theorem number?_ofFloat {x : Float} (h : x.isFinite = true) : (ofFloat x).number? = some x := by
  rw [ofFloat, if_pos h]
  rfl

theorem word?_toNat (n : UInt32) : word? (.int n.toNat) = some n := by
  have hlt : n.toNat < Nat.pow 2 32 := n.toNat_lt
  simp [word?, hlt]

end Cuesheet.Json

namespace Cuesheet.Location

theorem ofJson?_toJson (l : Location) : ofJson? l.toJson = some l := by
  have hfields : l.toJson.fields? fieldNames = some [some (.int l.line.toNat),
      some (.int l.column.toNat), some (.int l.length.toNat)] :=
    Json.fields?_object (by simp) (List.Subset.refl _)
  simp [ofJson?, hfields, Json.word?_toNat]

@[simp] theorem ofField?_toJson (l : Location) : ofField? (some l.toJson) = some l :=
  ofJson?_toJson l

end Cuesheet.Location

namespace Cuesheet.Json

theorem located_eq_node (kind : String) (fields : List (String × Json)) (l : Location) :
    located kind fields l = node kind (fields ++ [("location", l.toJson)]) := rfl

/-- A located node gives its kind, its location and the whole record, from which its reader then
takes the other fields. -/
theorem located?_located {kinds : List String} {kind : String} {fields : List (String × Json)}
    (l : Location) (hkind : kind ∈ kinds)
    (hnodup : (tagName :: (fields.map (·.1) ++ ["location"])).Nodup) :
    located? kinds (located kind fields l) = some (kind, l, located kind fields l) := by
  have hnames : (tagName :: (fields ++ [("location", l.toJson)]).map (·.1)).Nodup := by
    simpa using hnodup
  have htagged := tagged?_node true hkind hnames
  have hlocation : field? ((tagName, .string kind) :: (fields ++ [("location", l.toJson)]))
      "location" = some (some l.toJson) :=
    field?_of_mem hnames (by simp)
  rw [located_eq_node]
  unfold node at htagged ⊢
  simp [located?, htagged, hlocation]

theorem fields?_located (kind : String) (fields : List (String × Json)) (l : Location)
    (hnodup : (tagName :: (fields.map (·.1) ++ ["location"])).Nodup) :
    (located kind fields l).fields? (fields.map (·.1)) = some (fields.map fun f => some f.2) := by
  apply fields?_object
  · simpa using hnodup
  · intro f hf
    simp [hf]

theorem fields?_node (kind : String) (fields : List (String × Json))
    (hnodup : (tagName :: fields.map (·.1)).Nodup) :
    (node kind fields).fields? (fields.map (·.1)) = some (fields.map fun f => some f.2) :=
  fields?_object hnodup (List.subset_cons_self _ _)

/-! A reader looks at the fields of a record, and before that at the kind of a node. -/

section

variable {α : Type} {nested : Bool} {kinds : List String} {kind : String}
  {fields : List (String × Json)} {l : Location} {byFields : List (Option Json) → Option α} {a : α}

theorem read_object {entries : List (String × Json)} (hnodup : (entries.map (·.1)).Nodup)
    (hsubset : fields ⊆ entries) (h : byFields (fields.map fun f => some f.2) = some a) :
    ((object entries).fields? (fields.map (·.1)) >>= byFields) = some a := by
  rw [fields?_object hnodup hsubset]
  exact h

theorem read_tagged {byKind : String × Json → Option α} (hkind : kind ∈ kinds)
    (hnodup : (tagName :: fields.map (·.1)).Nodup)
    (h : byKind (kind, node kind fields) = some a) :
    (tagged? nested kinds (node kind fields) >>= byKind) = some a := by
  rw [tagged?_node nested hkind hnodup]
  exact h

/-- The shape of most readers: look at the kind of the node, then ask for the fields of that kind,
then put them together. `hbyKind` says that the branch for this kind asks for exactly the fields
that were written. -/
theorem read_node {byKind : String × Json → Option α} (hkind : kind ∈ kinds)
    (hnodup : (tagName :: fields.map (·.1)).Nodup)
    (hbyKind : ∀ record, byKind (kind, record) = (record.fields? (fields.map (·.1)) >>= byFields))
    (h : byFields (fields.map fun f => some f.2) = some a) :
    (tagged? nested kinds (node kind fields) >>= byKind) = some a := by
  apply read_tagged hkind hnodup
  rw [hbyKind, fields?_node kind fields hnodup]
  exact h

/-- The same for a node that says where it stands. -/
theorem read_located {byKind : String × Location × Json → Option α} (hkind : kind ∈ kinds)
    (hnodup : (tagName :: (fields.map (·.1) ++ ["location"])).Nodup)
    (hbyKind : ∀ record,
      byKind (kind, l, record) = (record.fields? (fields.map (·.1)) >>= byFields))
    (h : byFields (fields.map fun f => some f.2) = some a) :
    (located? kinds (located kind fields l) >>= byKind) = some a := by
  rw [located?_located l hkind hnodup]
  show byKind (kind, l, located kind fields l) = some a
  rw [hbyKind, fields?_located kind fields l hnodup]
  exact h

end

/-- A budget for a node leaves one level less for its fields. -/
theorem exists_budget_of_node {kind : String} {fields : List (String × Json)} {budget : Nat}
    (h : (node kind fields).depth ≤ budget) :
    ∃ less, budget = less + 1 ∧ ∀ field ∈ fields, field.2.depth ≤ less := by
  have hpos : 0 < (node kind fields).depth := by
    simp [node, depth]
  refine ⟨budget - 1, by omega, ?_⟩
  intro field hfield
  have hlt : field.2.depth < (node kind fields).depth :=
    depth_lt_of_mem_entries (List.mem_cons_of_mem _ hfield)
  omega

/-- The location is an entry more, and not a deeper one. -/
theorem exists_budget_of_located {kind : String} {fields : List (String × Json)} {l : Location}
    {budget : Nat} (h : (located kind fields l).depth ≤ budget) :
    ∃ less, budget = less + 1 ∧ ∀ field ∈ fields, field.2.depth ≤ less := by
  rw [located_eq_node] at h
  obtain ⟨less, hless, hfields⟩ := exists_budget_of_node h
  exact ⟨less, hless, fun field hfield => hfields field (List.mem_append_left _ hfield)⟩

theorem depth_le_of_mem_items {items : List Json} {budget : Nat}
    (h : (array items).depth ≤ budget) :
    ∀ j ∈ items, j.depth ≤ budget := by
  intro j hj
  have := depth_lt_of_mem_items hj
  omega

/-! ## Where numbers come from -/

mutual

/-- The numbers of a value, as floats. -/
def numbers : Json → List Float
  | .int n => [Float.ofInt n]
  | .float x => [x]
  | .array items => numbersInItems items
  | .object entries => numbersInEntries entries
  | .null | .bool _ | .string _ => []

def numbersInItems : List Json → List Float
  | [] => []
  | j :: rest => numbers j ++ numbersInItems rest

def numbersInEntries : List (String × Json) → List Float
  | [] => []
  | (_, j) :: rest => numbers j ++ numbersInEntries rest

end

theorem numbers_subset_of_mem_items {items : List Json} {j : Json} (h : j ∈ items) :
    j.numbers ⊆ (array items).numbers := by
  show j.numbers ⊆ numbersInItems items
  induction items with
  | nil => cases h
  | cons first rest ih =>
    rw [numbersInItems]
    rcases List.mem_cons.mp h with rfl | h
    · exact List.subset_append_left _ _
    · exact List.subset_append_of_subset_right _ (ih h)

theorem numbers_subset_of_mem_entries {entries : List (String × Json)} {name : String} {j : Json}
    (h : (name, j) ∈ entries) : j.numbers ⊆ (object entries).numbers := by
  show j.numbers ⊆ numbersInEntries entries
  induction entries with
  | nil => cases h
  | cons first rest ih =>
    rw [numbersInEntries]
    rcases List.mem_cons.mp h with rfl | h
    · exact List.subset_append_left _ _
    · exact List.subset_append_of_subset_right _ (ih h)

/-- A number that is read is one that stands there, either as it is or as the float of a whole
number. -/
theorem number?_subset_numbers {j : Json} {x : Float} (h : j.number? = some x) :
    [x] ⊆ j.numbers := by
  cases j with
  | int n | float y =>
    cases h
    exact List.Subset.refl _
  | null | bool _ | string _ | array _ | object _ => cases h

/-- The numbers of what is read, if anything is, are numbers of the value. -/
def Draws {α : Type} (j : Json) (found : α → List Float) (m : Option α) : Prop :=
  ∀ a, m = some a → found a ⊆ j.numbers

namespace Draws

variable {α β : Type} {j : Json} {found : α → List Float}

theorem none : Draws j found none := nofun

theorem some {a : α} (h : found a ⊆ j.numbers) : Draws j found (some a) := by
  intro b hb
  cases hb
  exact h

/-- A chain of readers draws its numbers from the value if the last one does, whatever the others
have found. -/
theorem bind {m : Option β} {k : β → Option α} (h : ∀ b, m = .some b → Draws j found (k b)) :
    Draws j found (m >>= k) := by
  intro a ha
  obtain ⟨b, hb, ha⟩ := Option.bind_eq_some_iff.mp ha
  exact h b hb a ha

end Draws

/-- Whatever value is read, the numbers come from there. -/
def Sourced {α : Type} (found : α → List Float) (read : Json → Option α) : Prop :=
  ∀ j, Draws j found (read j)

/-- Each result of a walk over a list comes from one of its entries. -/
theorem mem_of_mapM {α β : Type} {f : α → Option β} {as : List α} {bs : List β}
    (h : as.mapM f = some bs) : ∀ b ∈ bs, ∃ a ∈ as, f a = some b := by
  induction as generalizing bs with
  | nil =>
    cases h
    simp
  | cons a as ih =>
    rw [List.mapM_cons] at h
    obtain ⟨first, hfirst, h⟩ := Option.bind_eq_some_iff.mp h
    obtain ⟨rest, hrest, h⟩ := Option.bind_eq_some_iff.mp h
    cases h
    intro b hb
    rcases List.mem_cons.mp hb with rfl | hb
    · exact ⟨a, List.mem_cons_self, hfirst⟩
    · obtain ⟨a', ha', hb⟩ := ih hrest b hb
      exact ⟨a', List.mem_cons_of_mem _ ha', hb⟩

/-- A field that was found is one of the entries. Of two with the same name none is found, so
nothing has to be said about which one it is. -/
theorem mem_of_field? {entries : List (String × Json)} {name : String} {value : Json}
    (h : field? entries name = some (some value)) : (name, value) ∈ entries := by
  unfold field? at h
  split at h
  · cases h
  · rename_i found hnamed
    cases h
    have hmem : value ∈ entriesNamed entries name := hnamed ▸ List.mem_singleton_self _
    obtain ⟨⟨key, other⟩, hentry, hother⟩ := List.mem_filterMap.mp hmem
    dsimp only at hother
    split at hother
    · rename_i hkey
      cases hother
      exact hkey ▸ hentry
    · cases hother
  · cases h

/-- The numbers of a field are numbers of the record. -/
theorem numbers_subset_of_fields? {names : List String} {j v : Json} {fields : List (Option Json)}
    (hfields : j.fields? names = some fields) (hv : some v ∈ fields) : v.numbers ⊆ j.numbers := by
  cases j with
  | object entries =>
    obtain ⟨name, -, hname⟩ := mem_of_mapM hfields _ hv
    exact numbers_subset_of_mem_entries (mem_of_field? hname)
  | array items =>
    rw [fields?] at hfields
    split at hfields
    · cases hfields
      have hv : v ∈ items := by simpa using hv
      exact numbers_subset_of_mem_items hv
    · cases hfields
  | null | bool _ | int _ | float _ | string _ => cases hfields

/-- Both forms of a node: an object with its tag among the entries, or a list whose first item is
the tag. -/
theorem numbers_subset_of_tagged? {nested : Bool} {kinds : List String} {j record : Json}
    {kind : String} (h : tagged? nested kinds j = some (kind, record)) :
    record.numbers ⊆ j.numbers := by
  cases j with
  | object entries =>
    obtain ⟨tag, -, h⟩ := Option.bind_eq_some_iff.mp h
    obtain ⟨found, -, h⟩ := Option.bind_eq_some_iff.mp h
    cases h
    exact List.Subset.refl _
  | array items =>
    cases items with
    | nil => cases h
    | cons tag rest =>
      obtain ⟨found, -, h⟩ := Option.bind_eq_some_iff.mp h
      cases h
      exact List.subset_append_right _ _
  | null | bool _ | int _ | float _ | string _ => cases h

theorem Draws.of_tagged? {α : Type} {found : α → List Float} {m : Option α} {nested : Bool}
    {kinds : List String} {j record : Json} {kind : String}
    (htagged : tagged? nested kinds j = .some (kind, record)) (h : Draws record found m) :
    Draws j found m :=
  fun a ha => List.Subset.trans (h a ha) (numbers_subset_of_tagged? htagged)

/-- A located node is always an object, and it is handed on whole. -/
theorem located?_eq_some {kinds : List String} {j record : Json} {kind : String} {l : Location}
    (h : located? kinds j = some (kind, l, record)) : record = j := by
  cases j with
  | object entries =>
    obtain ⟨⟨found, node⟩, htagged, h⟩ := Option.bind_eq_some_iff.mp h
    obtain ⟨tag, -, htagged⟩ := Option.bind_eq_some_iff.mp htagged
    obtain ⟨_, -, htagged⟩ := Option.bind_eq_some_iff.mp htagged
    cases htagged
    obtain ⟨location?, -, h⟩ := Option.bind_eq_some_iff.mp h
    obtain ⟨location, -, h⟩ := Option.bind_eq_some_iff.mp h
    cases h
    rfl
  | null | bool _ | int _ | float _ | string _ | array _ => cases h

namespace Sourced

theorem number : Sourced (fun x => [x]) number? := fun _ _ h => number?_subset_numbers h

variable {α : Type} {found : α → List Float} {read : Json → Option α}

theorem listOf (h : Sourced found read) : Sourced (·.flatMap found) (listOf? read) := by
  intro j as has
  cases j with
  | array items =>
    intro x hx
    obtain ⟨a, ha, hx⟩ := List.mem_flatMap.mp hx
    obtain ⟨item, hitem, hread⟩ := mem_of_mapM has a ha
    exact numbers_subset_of_mem_items hitem (h item a hread hx)
  | null | bool _ | int _ | float _ | string _ | object _ => cases has

variable {names : List String} {j : Json} {fields : List (Option Json)} {field : Option Json}

theorem required (h : Sourced found read) (hfields : j.fields? names = some fields)
    (hfield : field ∈ fields) : Draws j found (Json.required read field) := by
  intro a ha
  cases field with
  | none => cases ha
  | some v => exact List.Subset.trans (h v a ha) (numbers_subset_of_fields? hfields hfield)

/-- A field that is missing has no numbers, and neither has its default. -/
theorem withDefault {default : α} (h : Sourced found read) (hdefault : found default = [])
    (hfields : j.fields? names = some fields) (hfield : field ∈ fields) :
    Draws j found (Json.withDefault read default field) := by
  intro a ha
  cases field with
  | none =>
    cases ha
    rw [hdefault]
    exact List.nil_subset _
  | some v => exact List.Subset.trans (h v a ha) (numbers_subset_of_fields? hfields hfield)

theorem optional (h : Sourced found read) (hfields : j.fields? names = some fields)
    (hfield : field ∈ fields) :
    Draws j (fun result => result.toList.flatMap found) (Json.optional read field) := by
  intro result hresult
  unfold Json.optional at hresult
  split at hresult
  · cases hresult
    exact List.nil_subset _
  · cases hresult
    exact List.nil_subset _
  · obtain ⟨a, ha, rfl⟩ := Option.map_eq_some_iff.mp hresult
    show [a].flatMap found ⊆ j.numbers
    rw [List.flatMap_singleton]
    exact List.Subset.trans (h _ a ha) (numbers_subset_of_fields? hfields hfield)

end Sourced

end Cuesheet.Json

import Den2ne.Json.Text
import Den2ne.Log.Record

/-!
# What the log prints

The JSON value of a log, `jsonLog`: one object for each event, with the values
of its record. The number of a sent Hello is not among them, and numbers of 32
bits are signed. `printed` is an object as `read_log` lays it out, and
`text_printed` says that this is a JSON text of its value.
-/

namespace Den2ne

namespace Log

variable {addrSize : ℕ}

/-! ## The printed values -/

/-- The 32 bits of a number as `%d` prints them. -/
def int32 (x : ℤ) : ℤ := Int.bmod x (2 ^ 32)

/-- Ids with points between them. -/
def dotted : List UInt8 → Output
  | [] => []
  | id :: ids => print2X id.toNat ++ ids.flatMap fun id => '.' :: print2X id.toNat

/-- The node that an event is about. -/
def origin (self : LinkAddr addrSize) : LogEvent addrSize → LinkAddr addrSize
  | .helloReceived sender => sender
  | .sethlmacReceived sender _ _ => sender
  | .loadReceived sender _ => sender
  | .shareReceived sender _ => sender
  | _ => self

/-- The members of an object besides its origin. -/
def details (self : LinkAddr addrSize) : LogEvent addrSize → List (Output × Json.Value)
  | .helloSent _ => [("Type".toList, .str "Hello".toList)]
  | .helloReceived _ => [("Type".toList, .str "Hello".toList)]
  | .sethlmacSent timestamp hlmacPrefix assigned =>
      [("Type".toList, .str "SetHLMAC".toList),
        ("Content".toList, .obj
          [("Timestamp".toList, .str (printD (int32 timestamp))),
            ("Prefix".toList, .str (dotted hlmacPrefix)),
            ("HLMAC".toList, .obj (assigned.map fun a =>
              (printAddr a.1, .str (print2X a.2.toNat))))])]
  | .sethlmacReceived _ timestamp address =>
      [("Type".toList, .str "SetHLMAC".toList),
        ("Content".toList, .obj
          [("Timestamp".toList, .str (printD (int32 timestamp))),
            ("Prefix".toList, .str (dotted address.dropLast)),
            ("HLMAC".toList, .obj
              [(printAddr self, .str (dotted (address.drop (address.length - 1))))])])]
  | .loadSent load =>
      [("Type".toList, .str "Load".toList), ("Value".toList, .str (printD (int32 load)))]
  | .loadReceived _ load =>
      [("Type".toList, .str "Load".toList), ("Value".toList, .str (printD (int32 load)))]
  | .shareSent extraLoad =>
      [("Type".toList, .str "Share".toList), ("Value".toList, .str (printD (int32 extraLoad)))]
  | .shareReceived _ extraLoad =>
      [("Type".toList, .str "Share".toList), ("Value".toList, .str (printD (int32 extraLoad)))]
  | .edge => [("Type".toList, .str "INFO".toList), ("Content".toList, .str "Edge".toList)]
  | .hlmacAdded address timestamp =>
      [("Type".toList, .str "INFO".toList), ("Content".toList, .str "HLMAC added".toList),
        ("Value".toList, .str (dotted address)),
        ("Timestamp".toList, .str (printD (int32 timestamp)))]
  | .convergence convergenceTime =>
      [("Type".toList, .str "INFO".toList), ("Content".toList, .str "Convergence".toList),
        ("Value".toList, .str (printD (int32 convergenceTime)))]

/-- The object of an event. -/
def json (self : LinkAddr addrSize) (e : LogEvent addrSize) : Json.Value :=
  .obj (("Origin".toList, .str (printAddr (origin self e))) :: details self e)

/-- The log as it is printed. -/
def jsonLog (self : LinkAddr addrSize) (nodeType : NodeType) (es : List (LogEvent addrSize)) :
    Json.Value :=
  .obj [("MAC".toList, .str (printAddr self)), ("Type".toList, .str (printType nodeType)),
    ("Message".toList, .arr (es.map (json self)))]

/-! ## Printed values are plain -/

open Json (Plain)

theorem plain_digitChar {n : ℕ} (h : n < 16) :
    Plain [Nat.digitChar n] ∧ Plain [(Nat.digitChar n).toUpper] := by
  have hall : ∀ m < 16, Plain [Nat.digitChar m] ∧ Plain [(Nat.digitChar m).toUpper] := by decide
  exact hall n h

theorem plain_print02x (b : UInt8) : Plain (print02x b) :=
  (plain_digitChar (Nat.div_lt_of_lt_mul b.toNat_lt)).1.append
    (plain_digitChar (Nat.mod_lt _ (by decide))).1

/-- An id is printed with two digits. -/
theorem print2X_toNat (id : UInt8) : print2X id.toNat =
    [(Nat.digitChar (id.toNat / 16)).toUpper, (Nat.digitChar (id.toNat % 16)).toUpper] := by
  have hid := id.toNat_lt
  rw [print2X]
  by_cases h : id.toNat < 16
  · rw [if_pos h, Nat.toDigits_of_lt_base h, Nat.div_eq_of_lt h, Nat.mod_eq_of_lt h]
    rfl
  · have hq : id.toNat / 16 < 16 := Nat.div_lt_of_lt_mul hid
    have happend := Nat.toDigits_append_toDigits (b := 16) (n := id.toNat / 16)
      (d := id.toNat % 16) (by decide) (Nat.div_pos (Nat.not_lt.1 h) (by decide))
      (Nat.mod_lt _ (by decide))
    rw [Nat.div_add_mod, Nat.toDigits_of_lt_base hq,
      Nat.toDigits_of_lt_base (Nat.mod_lt _ (by decide))] at happend
    rw [if_neg h, ← happend]
    rfl

theorem plain_print2X (id : UInt8) : Plain (print2X id.toNat) := by
  rw [print2X_toNat]
  exact (plain_digitChar (Nat.div_lt_of_lt_mul id.toNat_lt)).2.append
    (plain_digitChar (Nat.mod_lt _ (by decide))).2

theorem plain_of_isDigit {c : Char} (h : c.isDigit = true) : Plain [c] := by
  intro d hd
  rw [List.mem_singleton.1 hd]
  rw [Char.isDigit, Bool.and_eq_true, decide_eq_true_eq, decide_eq_true_eq] at h
  have hlow : 48 ≤ c.toNat := UInt32.le_iff_toNat_le.1 h.1
  have hhigh : c.toNat ≤ 57 := UInt32.le_iff_toNat_le.1 h.2
  refine ⟨?_, ?_, by omega⟩
  · rintro rfl
    exact absurd hlow (by decide)
  · rintro rfl
    exact absurd hhigh (by decide)

theorem plain_printD (x : ℤ) : Plain (printD x) := by
  refine Plain.append ?_ fun c hc => ?_
  · split <;> decide
  · exact plain_of_isDigit (Nat.isDigit_of_mem_toDigits (by decide) (by decide) hc) c
      (List.mem_singleton_self c)

theorem plain_printAddr (a : LinkAddr addrSize) : Plain (printAddr a) := by
  refine Json.plain_flatMap fun i _ => Plain.append ?_ (plain_print02x _)
  split <;> decide

theorem plain_dotted (ids : List UInt8) : Plain (dotted ids) := by
  cases ids with
  | nil => decide
  | cons id ids =>
      exact (plain_print2X id).append
        (Json.plain_flatMap fun id _ => Plain.append (s := ['.']) (by decide) (plain_print2X id))

/-! ## The layout of an object -/

open Json (Field quoted)

/-- A member whose value is a string. -/
def stringField (before name after gap s : Output) : Field :=
  ⟨before, name, after, gap ++ quoted s, .str s⟩

/-- A member whose value is an object. -/
def objectField (before name after gap : Output) (fs : List Field) : Field :=
  ⟨before, name, after, gap ++ Field.object fs gap, .obj (fs.map fun f => (f.name, f.value))⟩

/-- A member of the object of an event. -/
def eventField (name after s : Output) : Field :=
  stringField "\n\r\t\t\t".toList name after "\t".toList s

/-- A member of the content of a SetHLMAC. -/
def contentField (name after s : Output) : Field :=
  stringField "\n\r\t\t\t\t".toList name after "\t".toList s

/-- An address with its id. -/
def assignedField (a : Output × Output) : Field :=
  stringField "\n\r\t\t\t\t\t\t".toList a.1 " ".toList "\t".toList a.2

/-- The content of a SetHLMAC. -/
def sethlmacField (timestamp : ℤ) (hlmacPrefix : Output) (assigned : List (Output × Output)) :
    Field :=
  objectField "\n\r\t\t\t".toList "Content".toList " ".toList "\n\r\t\t\t".toList
    [contentField "Timestamp".toList "  ".toList (printD timestamp),
      contentField "Prefix".toList "     ".toList hlmacPrefix,
      objectField "\n\r\t\t\t\t".toList "HLMAC".toList "      ".toList "\n\r\t\t\t\t\t".toList
        (assigned.map assignedField)]

/-- The members of an object besides its origin, as they are printed. -/
def detailFields (self : LinkAddr addrSize) : LogEvent addrSize → List Field
  | .helloSent _ => [eventField "Type".toList "    ".toList "Hello".toList]
  | .helloReceived _ => [eventField "Type".toList "    ".toList "Hello".toList]
  | .sethlmacSent timestamp hlmacPrefix assigned =>
      [eventField "Type".toList "    ".toList "SetHLMAC".toList,
        sethlmacField (int32 timestamp) (dotted hlmacPrefix)
          (assigned.map fun a => (printAddr a.1, print2X a.2.toNat))]
  | .sethlmacReceived _ timestamp address =>
      [eventField "Type".toList "    ".toList "SetHLMAC".toList,
        sethlmacField (int32 timestamp) (dotted address.dropLast)
          [(printAddr self, dotted (address.drop (address.length - 1)))]]
  | .loadSent load =>
      [eventField "Type".toList "    ".toList "Load".toList,
        eventField "Value".toList "   ".toList (printD (int32 load))]
  | .loadReceived _ load =>
      [eventField "Type".toList "    ".toList "Load".toList,
        eventField "Value".toList "   ".toList (printD (int32 load))]
  | .shareSent extraLoad =>
      [eventField "Type".toList "    ".toList "Share".toList,
        eventField "Value".toList "   ".toList (printD (int32 extraLoad))]
  | .shareReceived _ extraLoad =>
      [eventField "Type".toList "    ".toList "Share".toList,
        eventField "Value".toList "   ".toList (printD (int32 extraLoad))]
  | .edge =>
      [eventField "Type".toList "    ".toList "INFO".toList,
        eventField "Content".toList " ".toList "Edge".toList]
  | .hlmacAdded address timestamp =>
      [eventField "Type".toList "    ".toList "INFO".toList,
        eventField "Content".toList " ".toList "HLMAC added".toList,
        eventField "Value".toList "   ".toList (dotted address),
        eventField "Timestamp".toList "   ".toList (printD (int32 timestamp))]
  | .convergence convergenceTime =>
      [eventField "Type".toList "    ".toList "INFO".toList,
        eventField "Content".toList " ".toList "Convergence".toList,
        eventField "Value".toList "   ".toList (printD (int32 convergenceTime))]

/-- The members of the object of an event, as they are printed. -/
def fields (self : LinkAddr addrSize) (e : LogEvent addrSize) : List Field :=
  eventField "Origin".toList "  ".toList (printAddr (origin self e)) :: detailFields self e

/-- The object of an event, as it is printed. -/
def printed (self : LinkAddr addrSize) (e : LogEvent addrSize) : Output :=
  "\n\r\t\t".toList ++ Field.object (fields self e) "\n\r\t\t".toList

theorem fields_values (self : LinkAddr addrSize) (e : LogEvent addrSize) :
    (fields self e).map (fun f => (f.name, f.value)) =
      ("Origin".toList, .str (printAddr (origin self e))) :: details self e := by
  cases e with
  | sethlmacSent timestamp hlmacPrefix assigned =>
      simp [fields, detailFields, details, eventField, stringField, sethlmacField, objectField,
        contentField, assignedField]
  | _ => rfl

theorem valid_stringField {before name after gap s : Output} (hbefore : Json.Ws before)
    (hname : Plain name) (hafter : Json.Ws after) (hgap : Json.Ws gap) (hs : Plain s) :
    (stringField before name after gap s).Valid :=
  ⟨hbefore, hname, hafter, (Json.Text.str hs).indent hgap⟩

theorem valid_objectField {before name after gap : Output} {fs : List Field}
    (hbefore : Json.Ws before) (hname : Plain name) (hafter : Json.Ws after) (hgap : Json.Ws gap)
    (hfs : ∀ f ∈ fs, f.Valid) : (objectField before name after gap fs).Valid :=
  ⟨hbefore, hname, hafter, (Field.text_object hfs hgap).indent hgap⟩

theorem valid_eventField {name after s : Output} (hname : Plain name) (hafter : Json.Ws after)
    (hs : Plain s) : (eventField name after s).Valid :=
  valid_stringField (by decide) hname hafter (by decide) hs

theorem valid_contentField {name after s : Output} (hname : Plain name) (hafter : Json.Ws after)
    (hs : Plain s) : (contentField name after s).Valid :=
  valid_stringField (by decide) hname hafter (by decide) hs

theorem valid_sethlmacField {timestamp : ℤ} {hlmacPrefix : Output}
    {assigned : List (Output × Output)} (hids : Plain hlmacPrefix)
    (hassigned : ∀ a ∈ assigned, Plain a.1 ∧ Plain a.2) :
    (sethlmacField timestamp hlmacPrefix assigned).Valid := by
  refine valid_objectField (by decide) (by decide) (by decide) (by decide) ?_
  simp only [List.forall_mem_cons, List.not_mem_nil, false_imp_iff, implies_true, and_true]
  refine ⟨valid_contentField (by decide) (by decide) (plain_printD _),
    valid_contentField (by decide) (by decide) hids,
    valid_objectField (by decide) (by decide) (by decide) (by decide) fun f hf => ?_⟩
  obtain ⟨a, ha, rfl⟩ := List.mem_map.1 hf
  exact valid_stringField (by decide) (hassigned a ha).1 (by decide) (by decide) (hassigned a ha).2

theorem valid_detailFields (self : LinkAddr addrSize) (e : LogEvent addrSize) :
    ∀ f ∈ detailFields self e, f.Valid := by
  have hone : ∀ {type : Output}, Plain type →
      (eventField "Type".toList "    ".toList type).Valid :=
    fun h => valid_eventField (by decide) (by decide) h
  have htwo : ∀ {type : Output} {f : Field}, Plain type → f.Valid →
      ∀ g ∈ [eventField "Type".toList "    ".toList type, f], g.Valid :=
    fun htype hf => List.forall_mem_cons.2 ⟨hone htype, List.forall_mem_singleton.2 hf⟩
  have hvalue : ∀ {value : Output}, Plain value →
      (eventField "Value".toList "   ".toList value).Valid :=
    fun h => valid_eventField (by decide) (by decide) h
  have hcontent : ∀ {content : Output}, Plain content →
      (eventField "Content".toList " ".toList content).Valid :=
    fun h => valid_eventField (by decide) (by decide) h
  cases e with
  | helloSent _ => exact List.forall_mem_singleton.2 (hone (by decide))
  | helloReceived _ => exact List.forall_mem_singleton.2 (hone (by decide))
  | sethlmacSent timestamp hlmacPrefix assigned =>
      refine htwo (by decide) (valid_sethlmacField (plain_dotted _) fun a ha => ?_)
      obtain ⟨b, -, rfl⟩ := List.mem_map.1 ha
      exact ⟨plain_printAddr _, plain_print2X _⟩
  | sethlmacReceived sender timestamp address =>
      exact htwo (by decide) (valid_sethlmacField (plain_dotted _)
        (List.forall_mem_singleton.2 ⟨plain_printAddr _, plain_dotted _⟩))
  | loadSent _ => exact htwo (by decide) (hvalue (plain_printD _))
  | loadReceived _ _ => exact htwo (by decide) (hvalue (plain_printD _))
  | shareSent _ => exact htwo (by decide) (hvalue (plain_printD _))
  | shareReceived _ _ => exact htwo (by decide) (hvalue (plain_printD _))
  | edge => exact htwo (by decide) (hcontent (by decide))
  | hlmacAdded address timestamp =>
      refine List.forall_mem_cons.2 ⟨hone (by decide), List.forall_mem_cons.2
        ⟨hcontent (by decide), List.forall_mem_cons.2 ⟨hvalue (plain_dotted _), ?_⟩⟩⟩
      exact List.forall_mem_singleton.2
        (valid_eventField (by decide) (by decide) (plain_printD _))
  | convergence convergenceTime =>
      exact List.forall_mem_cons.2 ⟨hone (by decide), List.forall_mem_cons.2
        ⟨hcontent (by decide), List.forall_mem_singleton.2 (hvalue (plain_printD _))⟩⟩

theorem valid_fields (self : LinkAddr addrSize) (e : LogEvent addrSize) :
    ∀ f ∈ fields self e, f.Valid :=
  List.forall_mem_cons.2
    ⟨valid_eventField (by decide) (by decide) (plain_printAddr _), valid_detailFields self e⟩

theorem text_printed (self : LinkAddr addrSize) (e : LogEvent addrSize) :
    Json.Text (printed self e) (json self e) := by
  have h := (Field.text_object (w := "\n\r\t\t".toList) (valid_fields self e) (by decide)).indent
    (w := "\n\r\t\t".toList) (by decide)
  rwa [fields_values] at h

end Log

end Den2ne

/-
The model is read back from its JSON text.

A value is written legibly, so its text gives back its document, and what is left is to
take the document apart.  Tokens stand inside texts and commands three containers further
in, and the induction goes through these.  A line, a condition or a command that holds a
number that is not finite is refused.
-/
import DeviceScript.Proofs.Json.Condition

namespace DeviceScript

open Json (ofText ofInt ofWord ofOption ofSingle record tagged binary? elements? word? readAs?
  nesting_array nesting_record nesting_tagged record?_record mapM_map_of_forall exists_of_mapM)

namespace Token

/-! ## Tokens inside tokens -/

/-- The tokens that a text or a command carries. -/
def nested : Token → List Token
  | .text _ l => l
  | .command _ l => l
  | _ => []

theorem sizeOf_nested {t u : Token} (h : u ∈ t.nested) : sizeOf u < sizeOf t := by
  cases t with
  | text s l =>
    have hu : u ∈ l := h
    have := List.sizeOf_lt_of_mem hu
    simp only [text.sizeOf_spec]
    omega
  | command k l =>
    have hu : u ∈ l := h
    have := List.sizeOf_lt_of_mem hu
    simp only [command.sizeOf_spec]
    omega
  | _ => cases h

theorem nested_induction {P : Token → Prop} (step : ∀ t : Token, (∀ u ∈ t.nested, P u) → P t)
    (t : Token) : P t :=
  step t fun u _ => nested_induction step u
termination_by sizeOf t
decreasing_by exact sizeOf_nested ‹_›

mutual

/-- The numbers in a token, those in the tokens and conditions inside it included. -/
def numbers : Token → List Single
  | .text _ l => listNumbers l
  | .number x => [x]
  | .condition c => c.numbers
  | .command _ l => listNumbers l
  | _ => []

def listNumbers : List Token → List Single
  | [] => []
  | t :: rest => t.numbers ++ listNumbers rest

end

theorem mem_listNumbers {l : List Token} {x : Single} :
    x ∈ listNumbers l ↔ ∃ t ∈ l, x ∈ t.numbers := by
  induction l with
  | nil => simp [listNumbers]
  | cons t l ih => simp [listNumbers, ih]

theorem mem_numbers_of_nested {t u : Token} {x : Single} (hu : u ∈ t.nested)
    (hx : x ∈ u.numbers) : x ∈ t.numbers := by
  cases t with
  | text s l => exact mem_listNumbers.mpr ⟨u, hu, hx⟩
  | command k l => exact mem_listNumbers.mpr ⟨u, hu, hx⟩
  | _ => cases hu

theorem listToJson_eq (l : List Token) : listToJson l = l.map toJson := by
  induction l with
  | nil => rfl
  | cons t l ih => rw [listToJson, ih, List.map_cons]

theorem mapM_listToJson {inner : Json → Option Token} {l : List Token}
    (h : ∀ u ∈ l, inner u.toJson = some u) : (listToJson l).mapM inner = some l := by
  rw [listToJson_eq, mapM_map_of_forall id h, List.map_id]

/-- Each token inside is three containers further in. -/
theorem nesting_nested {t u : Token} {n : Nat} (hu : u ∈ t.nested) (hn : t.toJson.nesting ≤ n) :
    ∃ m, n = m + 3 ∧ u.toJson.nesting ≤ m := by
  cases t with
  | text s l =>
    obtain ⟨m, rfl, hrecord⟩ := nesting_tagged hn
    obtain ⟨m, rfl, hfields⟩ := nesting_record hrecord
    simp only [List.forall_mem_cons] at hfields
    obtain ⟨m, rfl, hl⟩ := nesting_array hfields.2.1
    rw [listToJson_eq] at hl
    exact ⟨m, rfl, hl _ (List.mem_map_of_mem hu)⟩
  | command k l =>
    obtain ⟨m, rfl, hcommand⟩ := nesting_tagged hn
    obtain ⟨m, rfl, harray⟩ := nesting_tagged hcommand
    obtain ⟨m, rfl, hl⟩ := nesting_array harray
    rw [listToJson_eq] at hl
    exact ⟨m, rfl, hl _ (List.mem_map_of_mem hu)⟩
  | _ => cases hu

/-! ## Readers of one token -/

theorem textOfJson?_record (inner : Json → Option Token) (n : Nat) (s : String)
    (l : List Json) :
    textOfJson? inner (n + 1) (record [("value", ofText s), ("sub_tokens", .array l)]) =
      (elements? n (.array l)).bind fun p => (p.2.mapM inner).map (.text s) := by
  have hfields := record?_record false [("value", ofText s),
    ("sub_tokens", .array l)] (show ["value", "sub_tokens"].Nodup by decide) n
  simp only [List.map_cons, List.map_nil] at hfields
  rw [textOfJson?, hfields]
  simp only [Json.text?_ofText, Option.map_eq_bind]
  rfl

theorem find_label (k : CommandKind) :
    (CommandKind.all.find? fun l => l.label == k.label) = some k := by
  cases k <;> rfl

theorem commandOfJson?_tagged (inner : Json → Option Token) (n : Nat) (k : CommandKind)
    (l : List Json) :
    commandOfJson? inner (n + 1) (tagged k.label (.array l)) =
      (elements? n (.array l)).bind fun p => (p.2.mapM inner).map (k, ·) := by
  rw [commandOfJson?, Json.choice?_tagged]
  simp only [find_label, Option.map_eq_bind]
  rfl

theorem loopOfJson?_record (n : Nat) (count : Option Int32) :
    loopOfJson? (n + 1) (record [("count", ofOption (fun i => ofInt i.toInt) count)]) =
      some (.loop count) := by
  have hfields := record?_record false [("count",
    ofOption (fun i => ofInt i.toInt) count)] (show ["count"].Nodup by decide) n
  simp only [List.map_cons, List.map_nil] at hfields
  rw [loopOfJson?, hfields]
  simp

theorem ofJsonWith?_tagged (inner : Json → Option Token) (n : Nat) (name : String) {c : Json}
    (hc : c ≠ .null) :
    ofJsonWith? inner (n + 1) (tagged name c) = contentOfJson? inner name n c := by
  rw [ofJsonWith?, Json.choice?_tagged]
  cases c with
  | null => exact absurd rfl hc
  | _ => rfl

theorem ofJsonWith?_ofText (inner : Json → Option Token) (n : Nat) (name : String) :
    ofJsonWith? inner n (ofText name) = plain.find? fun t => t.name == name := by
  rw [ofJsonWith?, Json.choice?_ofText]

/-- A token is read by a reader of the tokens three containers further in, if there can be
any. -/
theorem ofJson?_eq (n : Nat) : ∃ inner, (∀ j, ofJson? n j = ofJsonWith? inner n j) ∧
    (∀ m j, n = m + 3 → inner j = ofJson? m j) ∧
    ∀ j t, inner j = some t → ∃ m, ofJson? m j = some t := by
  obtain - | - | - | n := n
  · exact ⟨fun _ => none, fun _ => rfl, fun m _ h => by omega, fun _ _ h => by cases h⟩
  · exact ⟨fun _ => none, fun _ => rfl, fun m _ h => by omega, fun _ _ h => by cases h⟩
  · exact ⟨fun _ => none, fun _ => rfl, fun m _ h => by omega, fun _ _ h => by cases h⟩
  · refine ⟨ofJson? n, fun _ => rfl, fun m j h => ?_, fun j t h => ⟨n, h⟩⟩
    obtain rfl : n = m := by omega
    rfl

/-- The kinds of token whose content is a word are read alike. -/
theorem ofJsonWith?_ofWord {α : Type} [Vocabulary α] {inner : Json → Option Token} {n : Nat}
    {name : String} {build : α → Token}
    (hname : ∀ m c, contentOfJson? inner name m c = (word? α m c).map build) {a : α}
    (hn : (tagged name (ofWord a)).nesting ≤ n) :
    ofJsonWith? inner n (tagged name (ofWord a)) = some (build a) := by
  obtain ⟨m, rfl, -⟩ := nesting_tagged hn
  refine (ofJsonWith?_tagged _ _ _ (Json.ofWord_ne_null a)).trans ?_
  rw [hname, Json.word?_ofWord]
  rfl

theorem ofJsonWith?_toJson {inner : Json → Option Token} {t : Token} {n : Nat}
    (hn : t.toJson.nesting ≤ n) (hx : ∀ x ∈ t.numbers, binary? .single (ofSingle x) = some x)
    (hinner : ∀ u ∈ t.nested, inner u.toJson = some u) :
    ofJsonWith? inner n t.toJson = some t := by
  cases t with
  | text s l =>
    obtain ⟨m, rfl, hrecord⟩ := nesting_tagged hn
    obtain ⟨m, rfl, hfields⟩ := nesting_record hrecord
    simp only [List.forall_mem_cons] at hfields
    obtain ⟨m, rfl, -⟩ := nesting_array hfields.2.1
    refine (ofJsonWith?_tagged _ _ _ (Json.record_ne_null _)).trans ?_
    refine (textOfJson?_record _ _ _ _).trans ?_
    rw [elements?, Option.bind_some, mapM_listToJson (l := l) hinner]
    rfl
  | command k l =>
    obtain ⟨m, rfl, hcommand⟩ := nesting_tagged hn
    obtain ⟨m, rfl, harray⟩ := nesting_tagged hcommand
    obtain ⟨m, rfl, -⟩ := nesting_array harray
    refine (ofJsonWith?_tagged _ _ _ (Json.record_ne_null _)).trans ?_
    show (commandOfJson? inner (m + 2) (tagged k.label (.array (listToJson l)))).map _ = _
    rw [commandOfJson?_tagged, elements?, Option.bind_some, mapM_listToJson (l := l) hinner]
    rfl
  | number x =>
    have hread := hx x List.mem_cons_self
    have hne : ofSingle x ≠ .null := by
      intro h
      rw [h] at hread
      cases hread
    obtain ⟨m, rfl, -⟩ := nesting_tagged hn
    refine (ofJsonWith?_tagged _ _ _ hne).trans ?_
    show (binary? .single (ofSingle x)).map Token.number = _
    rw [hread]
    rfl
  | condition c =>
    obtain ⟨m, rfl, hc⟩ := nesting_tagged hn
    refine (ofJsonWith?_tagged _ _ _ c.toJson_ne_null).trans ?_
    show (Condition.ofJson? m c.toJson).map Token.condition = _
    rw [Condition.ofJson?_toJson hc hx]
    rfl
  | selector s =>
    obtain ⟨m, rfl, hs⟩ := nesting_tagged hn
    obtain ⟨m, rfl, -⟩ := nesting_record hs
    refine (ofJsonWith?_tagged _ _ _ (Json.record_ne_null _)).trans ?_
    show (Selector.ofJson? (m + 1) s.toJson).map Token.selector = _
    rw [Selector.ofJson?_toJson]
    rfl
  | index i =>
    obtain ⟨m, rfl, -⟩ := nesting_tagged hn
    refine (ofJsonWith?_tagged _ _ _ (Json.ofInt_ne_null _)).trans ?_
    show (Json.int32? (ofInt i.toInt)).map Token.index = _
    rw [Json.int32?_ofInt]
    rfl
  | loop count =>
    obtain ⟨m, rfl, hrecord⟩ := nesting_tagged hn
    obtain ⟨m, rfl, -⟩ := nesting_record hrecord
    refine (ofJsonWith?_tagged _ _ _ (Json.record_ne_null _)).trans ?_
    exact loopOfJson?_record m count
  | boolean b =>
    obtain ⟨m, rfl, -⟩ := nesting_tagged hn
    refine ofJsonWith?_tagged _ _ _ ?_
    intro h
    cases h
  | property p =>
    cases p with
    | boolean p => exact ofJsonWith?_ofWord (fun _ _ => rfl) hn
    | numeric p => exact ofJsonWith?_ofWord (fun _ _ => rfl) hn
    | text p => exact ofJsonWith?_ofWord (fun _ _ => rfl) hn
  | device d => exact ofJsonWith?_ofWord (fun _ _ => rfl) hn
  | direction d => exact ofJsonWith?_ofWord (fun _ _ => rfl) hn
  | comparison c => exact ofJsonWith?_ofWord (fun _ _ => rfl) hn
  | aggregation m => exact ofJsonWith?_ofWord (fun _ _ => rfl) hn
  | unit u => exact ofJsonWith?_ofWord (fun _ _ => rfl) hn
  | control c => exact ofJsonWith?_ofWord (fun _ _ => rfl) hn
  | jump f => exact ofJsonWith?_ofWord (fun _ _ => rfl) hn
  -- The tokens without content are their names.
  | _ => exact ofJsonWith?_ofText _ _ _

theorem ofJson?_toJson (t : Token) : ∀ n, t.toJson.nesting ≤ n →
    (∀ x ∈ t.numbers, binary? .single (ofSingle x) = some x) → ofJson? n t.toJson = some t := by
  induction t using nested_induction with
  | step t ih =>
    intro n hn hx
    obtain ⟨inner, heq, hthree, -⟩ := ofJson?_eq n
    rw [heq]
    refine ofJsonWith?_toJson hn hx fun u hu => ?_
    obtain ⟨m, rfl, hm⟩ := nesting_nested hu hn
    rw [hthree m _ rfl]
    exact ih u hu m hm fun x hxu => hx x (mem_numbers_of_nested hu hxu)

/-! ## Refusing -/

theorem isFinite_of_mapM {inner : Json → Option Token} {l r : List Token}
    (hr : (listToJson l).mapM inner = some r)
    (hl : ∀ u ∈ l, ∀ v, inner u.toJson = some v → ∀ x ∈ u.numbers, x.isFinite = true) :
    ∀ x ∈ listNumbers l, x.isFinite = true := by
  intro x hx
  obtain ⟨u, hu, hx⟩ := mem_listNumbers.mp hx
  rw [listToJson_eq] at hr
  obtain ⟨v, hv⟩ := exists_of_mapM hr _ (List.mem_map_of_mem hu)
  exact hl u hu v hv x hx

theorem exists_of_elements? {α β : Type} {read : Json → Option α} {build : List α → β}
    {n : Nat} {l : List Json} {b : β}
    (h : ((elements? n (.array l)).bind fun p => (p.2.mapM read).map build) = some b) :
    ∃ r, l.mapM read = some r := by
  cases n with
  | zero => cases h
  | succ n =>
    obtain ⟨r, hr, -⟩ := Option.map_eq_some_iff.mp h
    exact ⟨r, hr⟩

theorem isFinite_of_ofJsonWith? {inner : Json → Option Token} {t v : Token} {n : Nat}
    (h : ofJsonWith? inner n t.toJson = some v)
    (hinner : ∀ u ∈ t.nested, ∀ v, inner u.toJson = some v →
      ∀ x ∈ u.numbers, x.isFinite = true) :
    ∀ x ∈ t.numbers, x.isFinite = true := by
  cases t with
  | text s l =>
    obtain - | n := n
    · cases h
    have h := (ofJsonWith?_tagged _ _ _ (Json.record_ne_null _)).symm.trans h
    obtain - | n := n
    · cases h
    obtain ⟨r, hr⟩ := exists_of_elements? ((textOfJson?_record _ _ _ _).symm.trans h)
    exact isFinite_of_mapM hr hinner
  | command k l =>
    obtain - | n := n
    · cases h
    have h := (ofJsonWith?_tagged _ _ _ (Json.record_ne_null _)).symm.trans h
    obtain ⟨p, hp, -⟩ := Option.map_eq_some_iff.mp h
    obtain - | n := n
    · cases hp
    obtain ⟨r, hr⟩ := exists_of_elements? ((commandOfJson?_tagged _ _ _ _).symm.trans hp)
    exact isFinite_of_mapM hr hinner
  | number x =>
    obtain - | n := n
    · cases h
    refine List.forall_mem_singleton.mpr ?_
    cases hx : x.isFinite with
    | true => rfl
    | false =>
      -- The token is its name with null for its content, and no token without content has
      -- this name.
      rw [toJson, Json.ofSingle_of_not_isFinite hx, ofJsonWith?, Json.choice?_tagged] at h
      cases h
  | condition c =>
    obtain - | n := n
    · cases h
    have h := (ofJsonWith?_tagged _ _ _ c.toJson_ne_null).symm.trans h
    obtain ⟨d, hd, -⟩ := Option.map_eq_some_iff.mp h
    exact Condition.isFinite_of_ofJson? hd
  | _ => exact List.forall_mem_nil _

/-- A token that is read holds finite numbers only. -/
theorem isFinite_of_ofJson? (t : Token) : ∀ n v, ofJson? n t.toJson = some v →
    ∀ x ∈ t.numbers, x.isFinite = true := by
  induction t using nested_induction with
  | step t ih =>
    intro n v h
    obtain ⟨inner, heq, -, hinner⟩ := ofJson?_eq n
    rw [heq] at h
    refine isFinite_of_ofJsonWith? h fun u hu w hw => ?_
    obtain ⟨m, hm⟩ := hinner _ _ hw
    exact ih u hu m w hm

/-! ## Lines -/

theorem legible_listToJson {l : List Token} (hl : ∀ t ∈ l, t.toJson.Legible) :
    (Json.array (listToJson l)).Legible := by
  refine .array fun j hj => ?_
  rw [listToJson_eq] at hj
  obtain ⟨t, ht, rfl⟩ := List.mem_map.mp hj
  exact hl t ht

theorem legible_toJson (t : Token) : t.toJson.Legible := by
  induction t using nested_induction with
  | step t ih =>
    cases t with
    | text s l =>
      refine Json.legible_tagged (Json.legible_record ?_)
      simp only [List.forall_mem_cons]
      exact ⟨Json.legible_ofText s, legible_listToJson ih, List.forall_mem_nil _⟩
    | command k l => exact Json.legible_tagged (Json.legible_tagged (legible_listToJson ih))
    | number x => exact Json.legible_tagged (Json.legible_ofSingle x)
    | condition c => exact Json.legible_tagged c.legible_toJson
    | selector s => exact Json.legible_tagged s.legible_toJson
    | index i => exact Json.legible_tagged (Json.legible_ofInt _)
    | loop count =>
      refine Json.legible_tagged (Json.legible_record (List.forall_mem_singleton.mpr ?_))
      exact Json.legible_ofOption (fun i => Json.legible_ofInt _) count
    | boolean b => exact Json.legible_tagged (.bool b)
    | property p => cases p <;> exact Json.legible_tagged (Json.legible_ofWord _)
    | device d => exact Json.legible_tagged (Json.legible_ofWord d)
    | direction d => exact Json.legible_tagged (Json.legible_ofWord d)
    | comparison c => exact Json.legible_tagged (Json.legible_ofWord c)
    | aggregation m => exact Json.legible_tagged (Json.legible_ofWord m)
    | unit u => exact Json.legible_tagged (Json.legible_ofWord u)
    | control c => exact Json.legible_tagged (Json.legible_ofWord c)
    | jump f => exact Json.legible_tagged (Json.legible_ofWord f)
    | _ => exact Json.legible_ofText _

theorem legible_lineToJson (l : List Token) : (lineToJson l).Legible :=
  legible_listToJson fun t _ => t.legible_toJson

theorem lineOfJson?_lineToJson {l : List Token} {n : Nat} (hn : (lineToJson l).nesting ≤ n)
    (hx : ∀ x ∈ listNumbers l, binary? .single (ofSingle x) = some x) :
    lineOfJson? n (lineToJson l) = some l := by
  obtain ⟨m, rfl, hl⟩ := nesting_array hn
  rw [listToJson_eq] at hl
  refine mapM_listToJson fun t ht => ?_
  exact t.ofJson?_toJson m (hl _ (List.mem_map_of_mem ht)) fun x hxt =>
    hx x (mem_listNumbers.mpr ⟨t, ht, hxt⟩)

theorem isFinite_of_lineOfJson? {l r : List Token} {n : Nat}
    (h : lineOfJson? n (lineToJson l) = some r) : ∀ x ∈ listNumbers l, x.isFinite = true := by
  cases n with
  | zero => cases h
  | succ n => exact isFinite_of_mapM h fun u _ v hv => u.isFinite_of_ofJson? n v hv

end Token

namespace CommandKind

theorem legible_toJson (k : CommandKind) (l : List Token) : (k.toJson l).Legible :=
  Json.legible_tagged (Token.legible_lineToJson l)

theorem ofJson?_toJson {k : CommandKind} {l : List Token} {n : Nat}
    (hn : (k.toJson l).nesting ≤ n)
    (hx : ∀ x ∈ Token.listNumbers l, binary? .single (ofSingle x) = some x) :
    ofJson? n (k.toJson l) = some (k, l) := by
  obtain ⟨m, rfl, harray⟩ := nesting_tagged hn
  have hline := Token.lineOfJson?_lineToJson harray hx
  obtain ⟨m, rfl, -⟩ := nesting_array harray
  rw [ofJson?, toJson, Token.commandOfJson?_tagged]
  show ((Token.listToJson l).mapM (Token.ofJson? m)).map (k, ·) = _
  rw [show (Token.listToJson l).mapM (Token.ofJson? m) = some l from hline]
  rfl

theorem isFinite_of_ofJson? {k : CommandKind} {l : List Token} {n : Nat}
    {r : CommandKind × List Token} (h : ofJson? n (k.toJson l) = some r) :
    ∀ x ∈ Token.listNumbers l, x.isFinite = true := by
  cases n with
  | zero => cases h
  | succ n =>
    rw [ofJson?, toJson, Token.commandOfJson?_tagged] at h
    obtain ⟨r, hr⟩ := Token.exists_of_elements? h
    exact Token.isFinite_of_mapM hr fun u _ v hv => u.isFinite_of_ofJson? _ v hv

end CommandKind

/-! ## Options -/

namespace NameSet

/-- A name past all others goes to the end. -/
theorem place_append {name : String} {l : List String} (hl : ∀ a ∈ l, nameBefore a name) :
    place name l = l ++ [name] := by
  induction l with
  | nil => rfl
  | cons a l ih =>
    obtain ⟨ha, hl⟩ := List.forall_mem_cons.mp hl
    have hgt : Text.order name.toList a.toList = .gt := by
      rw [← Text.order_swap, ha]
      rfl
    rw [place, hgt]
    show a :: place name l = _
    rw [ih hl]
    rfl

theorem names_foldl_insert {l : List String} {s : NameSet}
    (h : (s.names ++ l).Pairwise nameBefore) : (l.foldl insert s).names = s.names ++ l := by
  induction l generalizing s with
  | nil => exact (List.append_nil _).symm
  | cons name l ih =>
    have hplace : (s.insert name).names = s.names ++ [name] := by
      refine place_append fun a ha => ?_
      exact (List.pairwise_append.mp h).2.2 a ha name List.mem_cons_self
    rw [List.foldl_cons, ih, hplace, List.append_assoc]
    · rfl
    · rw [hplace, List.append_assoc]
      exact h

/-- A set is read back from its names in order. -/
theorem ofList_names (s : NameSet) : ofList s.names = s := by
  have h : (ofList s.names).names = s.names := names_foldl_insert s.sorted
  cases hs : ofList s.names
  cases s
  rw [hs] at h
  cases h
  rfl

end NameSet

namespace Options

theorem legible_toJson (o : Options) : o.toJson.Legible := by
  refine Json.legible_record ?_
  simp only [List.forall_mem_cons]
  refine ⟨.array fun j hj => ?_, Json.legible_ofInt _, .bool _, List.forall_mem_nil _⟩
  obtain ⟨name, -, rfl⟩ := List.mem_map.mp hj
  exact Json.legible_ofText name

theorem ofJson?_toJson (o : Options) (n : Nat) : ofJson? (n + 2) o.toJson = some o := by
  have hfields := record?_record true [
    ("functions", .array (o.functions.names.map ofText)),
    ("max_condition_depth", ofInt o.maxConditionDepth.toNat),
    ("trace_parameters", .bool o.traceTokens)]
    (show ["functions", "max_condition_depth", "trace_parameters"].Nodup by decide) (n + 1)
  have hnames : namesOfJson? (n + 1) (.array (o.functions.names.map ofText)) =
      some o.functions := by
    show ((o.functions.names.map ofText).mapM Json.text?).map NameSet.ofList = _
    rw [mapM_map_of_forall id fun name _ => Json.text?_ofText name, List.map_id,
      Option.map_some, NameSet.ofList_names]
  simp only [List.map_cons, List.map_nil] at hfields
  rw [ofJson?, toJson, hfields]
  simp [fieldOr, hnames, Json.bool?]

end Options

/-! ## Texts -/

theorem binary?_of_numbers {l : List Single}
    (h : ∀ x ∈ l, x.isFinite = true ∧ Json.Number.Restores x) :
    ∀ x ∈ l, binary? .single (ofSingle x) = some x :=
  fun x hx => Json.binary?_ofSingle (h x hx).1 (h x hx).2

/-- A reader that accepts only finite numbers refuses any other. -/
theorem readAs?_eq_none {α : Type} {decode : Nat → Json → Option α} {j : Json} {l : List Single}
    (hj : j.Legible) (hl : ∃ x ∈ l, x.isFinite = false)
    (h : ∀ a, decode Json.maxNesting j = some a → ∀ x ∈ l, x.isFinite = true) :
    readAs? decode j.text = none := by
  rw [Json.readAs?_text decode hj, Option.eq_none_iff_forall_ne_some]
  intro a ha
  obtain ⟨x, hx, hfinite⟩ := hl
  rw [h a ha x hx] at hfinite
  cases hfinite

/-- Lines, selectors, conditions, commands and options are read back from their texts, and
what holds a number that is not finite is refused.  Selectors and options never nest deep
enough for the limit to matter. -/
theorem readAs?_text_toJson :
    (∀ l : List Token, (Token.lineToJson l).nesting < 128 →
      (∀ x ∈ Token.listNumbers l, x.isFinite = true ∧ Json.Number.Restores x) →
      readAs? Token.lineOfJson? (Token.lineToJson l).text = some l) ∧
    (∀ s : Selector, readAs? Selector.ofJson? s.toJson.text = some s) ∧
    (∀ c : Condition, c.toJson.nesting < 128 →
      (∀ x ∈ c.numbers, x.isFinite = true ∧ Json.Number.Restores x) →
      readAs? Condition.ofJson? c.toJson.text = some c) ∧
    (∀ (k : CommandKind) (l : List Token), (k.toJson l).nesting < 128 →
      (∀ x ∈ Token.listNumbers l, x.isFinite = true ∧ Json.Number.Restores x) →
      readAs? CommandKind.ofJson? (k.toJson l).text = some (k, l)) ∧
    (∀ o : Options, readAs? Options.ofJson? o.toJson.text = some o) ∧
    (∀ l : List Token, (∃ x ∈ Token.listNumbers l, x.isFinite = false) →
      readAs? Token.lineOfJson? (Token.lineToJson l).text = none) ∧
    (∀ c : Condition, (∃ x ∈ c.numbers, x.isFinite = false) →
      readAs? Condition.ofJson? c.toJson.text = none) ∧
    ∀ (k : CommandKind) (l : List Token), (∃ x ∈ Token.listNumbers l, x.isFinite = false) →
      readAs? CommandKind.ofJson? (k.toJson l).text = none := by
  refine ⟨?_, ?_, ?_, ?_, ?_, ?_, ?_, ?_⟩
  · intro l hn hx
    rw [Json.readAs?_text _ (Token.legible_lineToJson l)]
    exact Token.lineOfJson?_lineToJson (Nat.le_of_lt_succ hn) (binary?_of_numbers hx)
  · intro s
    rw [Json.readAs?_text _ s.legible_toJson]
    exact s.ofJson?_toJson 126
  · intro c hn hx
    rw [Json.readAs?_text _ c.legible_toJson]
    exact Condition.ofJson?_toJson (Nat.le_of_lt_succ hn) (binary?_of_numbers hx)
  · intro k l hn hx
    rw [Json.readAs?_text _ (k.legible_toJson l)]
    exact CommandKind.ofJson?_toJson (Nat.le_of_lt_succ hn) (binary?_of_numbers hx)
  · intro o
    rw [Json.readAs?_text _ o.legible_toJson]
    exact o.ofJson?_toJson 125
  · intro l hl
    exact readAs?_eq_none (Token.legible_lineToJson l) hl
      fun _ => Token.isFinite_of_lineOfJson?
  · intro c hc
    exact readAs?_eq_none c.legible_toJson hc fun _ => Condition.isFinite_of_ofJson?
  · intro k l hl
    exact readAs?_eq_none (k.legible_toJson l) hl fun _ => CommandKind.isFinite_of_ofJson?

/-- Two and a half is written as 2.5, which is read as two and a half. -/
theorem restores_two_and_half : Json.Number.Restores (.ofDecimal .single false 25 (-1)) := by
  intro n hn
  have h : Json.Number.ofBinary? .single (Numeral.Binary.ofDecimal .single false 25 (-1)) =
      some { negative := false, whole := ['2'], fraction := ['5'] } := by decide +kernel
  rw [h] at hn
  cases hn
  decide +kernel

theorem readAs?_text_toJson_two_and_half :
    (readAs? Token.lineOfJson? (Token.lineToJson [.text "Deck\x01 \"A\"" [.group, .command .wait
        [.wait, .number (.ofDecimal .single false 25 (-1)), .unit .seconds]]]).text =
      some [.text "Deck\x01 \"A\"" [.group, .command .wait
        [.wait, .number (.ofDecimal .single false 25 (-1)), .unit .seconds]]]) ∧
    (readAs? Condition.ofJson? (Condition.toJson (.not (.aggregate .any (.numeric .piston .height
        .less (.ofDecimal .single false 25 (-1))) ⟨.piston, false, "", some (-1)⟩))).text =
      some (.not (.aggregate .any (.numeric .piston .height .less
        (.ofDecimal .single false 25 (-1))) ⟨.piston, false, "", some (-1)⟩))) ∧
    (readAs? CommandKind.ofJson? (CommandKind.toJson .wait
        [.wait, .number (.ofDecimal .single false 25 (-1))]).text =
      some (.wait, [.wait, .number (.ofDecimal .single false 25 (-1))])) ∧
    readAs? Token.lineOfJson? (Token.lineToJson [.text "" [.number .nan]]).text = none ∧
    readAs? Condition.ofJson? (Condition.toJson (.not (.numeric .piston .height .less
      (.infinite true)))).text = none ∧
    readAs? CommandKind.ofJson? (CommandKind.toJson .wait [.number .nan]).text = none := by
  obtain ⟨hline, -, hcondition, hcommand, -, hlineNone, hconditionNone, hcommandNone⟩ :=
    readAs?_text_toJson
  have hnumber : ∀ x ∈ [(.ofDecimal .single false 25 (-1) : Single)],
      x.isFinite = true ∧ Json.Number.Restores x :=
    List.forall_mem_singleton.mpr ⟨by decide +kernel, restores_two_and_half⟩
  exact ⟨hline _ (by decide +kernel) hnumber, hcondition _ (by decide +kernel) hnumber,
    hcommand _ _ (by decide +kernel) hnumber, hlineNone _ ⟨.nan, List.mem_cons_self, rfl⟩,
    hconditionNone _ ⟨.infinite true, List.mem_cons_self, rfl⟩,
    hcommandNone _ _ ⟨.nan, List.mem_cons_self, rfl⟩⟩

end DeviceScript

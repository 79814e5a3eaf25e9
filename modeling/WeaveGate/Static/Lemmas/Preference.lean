import WeaveGate.Lib.StableSort
import WeaveGate.Static.Preference

/-!
# How the server reads a preference

The texts of field lines give back their elements, however the lines are split, and the sorted codings are searched
in the order in which they are read.
-/

namespace WeaveGate.Static

open Http

/-! ## Characters -/

/-- A character that no separator and no trimming touches. -/
def isSolid (c : Char) : Bool :=
  !Text.isWhitespace c && c ≠ ',' && c ≠ ';' && c ≠ '=' && HeaderValue.isPrintable c

theorem isSolid_of_isTokenChar {c : Char} (h : isTokenChar c = true) : isSolid c = true := by
  rcases Bool.or_eq_true _ _ |>.mp h with h | h
  · have hrange := Text.toNat_of_isAlphanum h
    have hne : ∀ d : Char, ¬ (48 ≤ d.toNat ∧ d.toNat ≤ 57 ∨ 65 ≤ d.toNat ∧ d.toNat ≤ 90 ∨ 97 ≤ d.toNat ∧ d.toNat ≤ 122) →
        c ≠ d := fun d hd heq => hd (heq ▸ hrange)
    have hspace : Text.isWhitespace c = false := by
      simp only [Text.isWhitespace, Bool.or_eq_false_iff, Bool.and_eq_false_iff, decide_eq_false_iff_not]
      omega
    have hprint : HeaderValue.isPrintable c = true := by
      simp only [HeaderValue.isPrintable, Bool.or_eq_true, Bool.and_eq_true, decide_eq_true_eq]
      omega
    simp [isSolid, hspace, hprint, hne ',' (by decide), hne ';' (by decide), hne '=' (by decide)]
  · have hall : ("!#$%&'*+-.^_\x60|~".toList.all isSolid) = true := by decide
    exact List.all_eq_true.mp hall c (of_decide_eq_true h)

theorem isOws_cases {c : Char} (h : isOws c = true) : c = ' ' ∨ c = '\t' := by
  simpa [isOws] using h

theorem isWhitespace_of_isOws {c : Char} (h : isOws c = true) : Text.isWhitespace c = true := by
  rcases isOws_cases h with rfl | rfl <;> decide

theorem Ows.ne (ws : Ows) {d : Char} (hd : isOws d = false) : ∀ c ∈ ws.1, c ≠ d := fun c hc heq => by
  have h := List.all_eq_true.mp ws.2 c hc
  rw [heq, hd] at h
  cases h

theorem Ows.printable (ws : Ows) : ws.1.all HeaderValue.isPrintable = true := List.all_eq_true.mpr fun c hc => by
  rcases isOws_cases (List.all_eq_true.mp ws.2 c hc) with rfl | rfl <;> decide

/-! ## Trimming -/

theorem trimStart_ows (ws : Ows) (s : Str) : Text.trimStart (ws.1 ++ s) = Text.trimStart s :=
  List.dropWhile_append_of_pos fun c hc => isWhitespace_of_isOws (List.all_eq_true.mp ws.2 c hc)

theorem trimEnd_ows (ws : Ows) (s : Str) : Text.trimEnd (s ++ ws.1) = Text.trimEnd s := by
  unfold Text.trimEnd List.rdropWhile
  rw [List.reverse_append, List.dropWhile_append_of_pos]
  intro c hc
  exact isWhitespace_of_isOws (List.all_eq_true.mp ws.2 c (List.mem_reverse.mp hc))

theorem trimStart_solid {s : Str} (h : s.head?.all isSolid = true) : Text.trimStart s = s := by
  cases s with
  | nil => rfl
  | cons c s =>
      have hc : Text.isWhitespace c = false := by
        simp only [List.head?_cons, Option.all_some, isSolid, Bool.and_eq_true, Bool.not_eq_true'] at h
        exact h.1.1.1.1
      exact List.dropWhile_cons_of_neg (by simp [hc])

theorem trimEnd_solid {s : Str} (h : s.all isSolid = true) : Text.trimEnd s = s := by
  have hrev := trimStart_solid (s := s.reverse) (by
    cases hs : s.reverse with
    | nil => rfl
    | cons c rest =>
        exact List.all_eq_true.mp h c (List.mem_reverse.mp (hs ▸ List.mem_cons_self)))
  unfold Text.trimEnd List.rdropWhile
  exact (congrArg List.reverse hrev).trans s.reverse_reverse

/-! ## One element -/

/-- Reading the text of a weight gives the `f32` next to it. -/
structure ReadsQvalues (crates : Crates) : Prop where
  read : ∀ q : Qvalue, crates.parseF32 q.text = some (Float32.Model.ofScientific q.thousandths (-3))

/-- The digits of a weight, the first for the ones and none for the point. -/
def weightDigits : Str → Nat
  | [] => 0
  | ones :: rest => 1000 * (ones.toNat - 48) +
      (List.zipWith (fun c w => (c.toNat - 48) * w) (rest.drop 1) [100, 10, 1]).sum

def readF32 (value : Str) : Option Float32.Model := some (Float32.Model.ofScientific (weightDigits value) (-3))

theorem weightDigits_text (q : Qvalue) : weightDigits q.text = q.thousandths := by
  have hdigit : ∀ d : Fin 10, (Qvalue.digitChar d).toNat - 48 = d := by decide
  have hsum : ∀ (ds : List (Fin 10)) (ws : List Nat),
      List.zipWith (fun c w => (c.toNat - 48) * w) (ds.map Qvalue.digitChar) ws =
        List.zipWith (fun d w => d.val * w) ds ws := by
    intro ds ws
    simp only [List.zipWith_map_left, hdigit]
  have hzero : ∀ (ds : List (Fin 10)) (ws : List Nat), ds.all (· = 0) = true →
      (List.zipWith (fun d w => d.val * w) ds ws).sum = 0 := by
    intro ds
    induction ds with
    | nil => intro ws _; rfl
    | cons d ds ih =>
        intro ws h
        simp only [List.all_cons, Bool.and_eq_true, decide_eq_true_eq] at h
        cases ws with
        | nil => rfl
        | cons w ws =>
            rw [List.zipWith_cons_cons, List.sum_cons, ih ws h.2, h.1]
            simp
  unfold Qvalue.text Qvalue.thousandths
  cases hone : q.one with
  | true =>
      cases hds : q.decimals with
      | none => rfl
      | some ds =>
          have hall : ds.all (· = 0) = true := by
            have h := q.atMostOne hone
            rwa [hds] at h
          simp only [if_true, Option.elim_some, weightDigits, List.drop_succ_cons, List.drop_zero, hsum, hzero ds _ hall]
          decide
  | false =>
      cases q.decimals with
      | none => rfl
      | some ds =>
          simp only [Bool.false_eq_true, if_false, Option.elim_some, weightDigits, List.drop_succ_cons, List.drop_zero,
            hsum, Option.getD_some]
          exact Nat.zero_add _

theorem Element.name_solid (e : Element) : e.name.all isSolid = true :=
  List.all_eq_true.mpr fun c hc => isSolid_of_isTokenChar (List.all_eq_true.mp e.token.2 c hc)

theorem Element.name_head (e : Element) : e.name.head?.all isSolid = true := by
  obtain ⟨c, rest, hname⟩ := List.exists_cons_of_ne_nil e.token.1
  have h := e.name_solid
  rw [hname] at h ⊢
  exact (Bool.and_eq_true _ _).mp h |>.1

theorem solid_ne {s : Str} (h : s.all isSolid = true) : ∀ c ∈ s, c ≠ ',' ∧ c ≠ ';' ∧ c ≠ '=' := fun c hc => by
  have hc := List.all_eq_true.mp h c hc
  simp only [isSolid, Bool.and_eq_true, decide_eq_true_eq] at hc
  exact ⟨hc.1.1.1.2, hc.1.1.2, hc.1.2⟩

theorem Qvalue.text_solid (q : Qvalue) : q.text.all isSolid = true := by
  have hdigit : ∀ d : Fin 10, isSolid (Qvalue.digitChar d) = true := by decide
  unfold Qvalue.text
  rw [List.all_cons, Bool.and_eq_true]
  constructor
  · split <;> decide
  · cases q.decimals with
    | none => rfl
    | some ds =>
        simp only [Option.elim_some, List.all_cons, List.all_map, Bool.and_eq_true]
        exact ⟨by decide, List.all_eq_true.mpr fun d _ => hdigit d⟩

theorem readF32_text (q : Qvalue) : readF32 q.text = some (Float32.Model.ofScientific q.thousandths (-3)) := by
  rw [readF32, weightDigits_text]

theorem Qvalue.trim_text (q : Qvalue) (ws : Ows) : Text.trim (q.text ++ ws.1) = q.text := by
  have hhead : (q.text ++ ws.1).head?.all isSolid = true := by
    have h := q.text_solid
    unfold Qvalue.text at h ⊢
    exact ((Bool.and_eq_true _ _).mp h).1
  rw [Text.trim, trimStart_solid hhead, trimEnd_ows, trimEnd_solid q.text_solid]

variable {crates : Crates}

theorem trim_name (e : Element) (lead trail : Ows) : Text.trim (lead.1 ++ (e.name ++ trail.1)) = e.name := by
  have hhead : (e.name ++ trail.1).head?.all isSolid = true := by
    rw [List.head?_append_of_ne_nil _ e.token.1]
    exact e.name_head
  rw [Text.trim, trimStart_ows, trimStart_solid hhead, trimEnd_ows, trimEnd_solid e.name_solid]

/-- The name of an element is no parameter. -/
theorem stripPrefix_name (e : Element) (lead trail : Ows) :
    Text.stripPrefix (Text.trimStart (lead.1 ++ (e.name ++ trail.1))) "q=".toList = none := by
  have hhead : (e.name ++ trail.1).head?.all isSolid = true := by
    rw [List.head?_append_of_ne_nil _ e.token.1]
    exact e.name_head
  rw [trimStart_ows, trimStart_solid hhead]
  refine Text.stripPrefix_eq_none fun hprefix => ?_
  have hmem : '=' ∈ e.name ++ trail.1 := hprefix.subset (by decide)
  rcases List.mem_append.mp hmem with h | h
  · exact (solid_ne e.name_solid _ h).2.2 rfl
  · exact trail.ne (by decide) _ h rfl

theorem Weight.value_head (w : Weight) (trail : Ows) :
    Text.trimStart (w.after.1 ++ ((if w.upper then 'Q' else 'q') :: '=' :: w.value.text ++ trail.1)) =
      (if w.upper then 'Q' else 'q') :: '=' :: (w.value.text ++ trail.1) := by
  rw [trimStart_ows]
  refine trimStart_solid ?_
  simp only [List.cons_append, List.head?_cons, Option.all_some]
  split <;> decide

theorem qualityMeta_element (laws : ReadsQvalues crates) (e : Element) (lead trail : Ows) :
    qualityMeta crates (lead.1 ++ e.text ++ trail.1) = ⟨e.name, e.readQ⟩ := by
  have hname : ∀ (lead trail : Ows), ∀ c ∈ lead.1 ++ (e.name ++ trail.1), c ≠ ';' := by
    intro lead trail c hc
    rcases List.mem_append.mp hc with hc | hc
    · exact lead.ne (by decide) c hc
    · rcases List.mem_append.mp hc with hc | hc
      · exact (solid_ne e.name_solid c hc).2.1
      · exact trail.ne (by decide) c hc
  cases hweight : e.weight with
  | none =>
      have hparts : (lead.1 ++ e.text ++ trail.1).splitOn ';' = [lead.1 ++ (e.name ++ trail.1)] := by
        rw [Element.text, hweight, Option.elim_none, List.append_nil, List.append_assoc]
        exact List.splitOn_eq_singleton fun h => hname lead trail _ h rfl
      simp only [qualityMeta, hparts, List.headD_cons, List.foldl_cons, List.foldl_nil, trim_name, stripPrefix_name,
        Element.readQ, hweight, Option.elim_none]
  | some w =>
      have hvalue : ';' ∉ w.after.1 ++ ((if w.upper then 'Q' else 'q') :: '=' :: w.value.text ++ trail.1) := by
        simp only [List.mem_append, List.mem_cons, not_or]
        refine ⟨fun h => w.after.ne (by decide) _ h rfl, ⟨?_, by decide, fun h => ?_⟩, fun h => ?_⟩
        · split <;> decide
        · exact (solid_ne w.value.text_solid _ h).2.1 rfl
        · exact trail.ne (by decide) _ h rfl
      have hparts : (lead.1 ++ e.text ++ trail.1).splitOn ';' = [lead.1 ++ (e.name ++ w.before.1),
          w.after.1 ++ ((if w.upper then 'Q' else 'q') :: '=' :: w.value.text ++ trail.1)] := by
        have htext : lead.1 ++ e.text ++ trail.1 = lead.1 ++ (e.name ++ w.before.1) ++
            ';' :: (w.after.1 ++ ((if w.upper then 'Q' else 'q') :: '=' :: w.value.text ++ trail.1)) := by
          simp [Element.text, hweight, Weight.text]
        rw [htext, List.splitOn_append_cons_self_of_not_mem fun h => hname lead w.before _ h rfl,
          List.splitOn_eq_singleton hvalue]
      simp only [qualityMeta, hparts, List.headD_cons, List.foldl_cons, List.foldl_nil, trim_name, stripPrefix_name,
        Weight.value_head, Element.readQ, hweight, Option.elim_some, QualityMeta.mk.injEq, true_and]
      cases w.upper with
      | true =>
          have hstrip : Text.stripPrefix ('Q' :: '=' :: (w.value.text ++ trail.1)) "q=".toList = none :=
            Text.stripPrefix_eq_none fun h => absurd (List.cons_prefix_cons.mp h).1 (by decide)
          simp only [if_true, hstrip]
      | false =>
          have hstrip : Text.stripPrefix ('q' :: '=' :: (w.value.text ++ trail.1)) "q=".toList =
              some (w.value.text ++ trail.1) := Text.stripPrefix_append "q=".toList _
          have hread : qualityOf (Float32.Model.ofScientific w.value.thousandths (-3)) = _ :=
            f32Thousandths_eq w.value.thousandths_le
          simp only [Bool.false_eq_true, if_false, hstrip, w.value.trim_text, laws.read, Option.elim_some, hread]

theorem qualityMeta_blank (ws : Ows) : qualityMeta crates ws.1 = ⟨[], 1000⟩ := by
  have hparts : ws.1.splitOn ';' = [ws.1] := List.splitOn_eq_singleton fun h => ws.ne (by decide) _ h rfl
  have htrim : Text.trimStart ws.1 = [] := by
    have h := trimStart_ows ws []
    rwa [List.append_nil] at h
  simp only [qualityMeta, hparts, List.headD_cons, List.foldl_cons, List.foldl_nil, Text.trim, htrim]
  rfl

/-! ## One line -/

def Item.read (i : Item) : QualityMeta := i.element.elim ⟨[], 1000⟩ fun e => ⟨e.name, e.readQ⟩

theorem qualityMeta_item (laws : ReadsQvalues crates) (i : Item) : qualityMeta crates i.text = i.read := by
  unfold Item.text Item.read
  cases i.element with
  | none =>
      have hws : (i.before.1 ++ i.after.1).all isOws = true := by
        rw [List.all_append, i.before.2, i.after.2]
        rfl
      rw [Option.elim_none, List.append_nil]
      exact qualityMeta_blank ⟨_, hws⟩
  | some e => exact qualityMeta_element laws e i.before i.after

theorem Element.text_chars (e : Element) : ∀ c ∈ e.text, c ≠ ',' ∧ HeaderValue.isPrintable c = true := by
  have hsolid : ∀ s : Str, s.all isSolid = true → ∀ c ∈ s, c ≠ ',' ∧ HeaderValue.isPrintable c = true := by
    intro s hs c hc
    have hc := List.all_eq_true.mp hs c hc
    simp only [isSolid, Bool.and_eq_true, decide_eq_true_eq] at hc
    exact ⟨hc.1.1.1.2, hc.2⟩
  have hows : ∀ ws : Ows, ∀ c ∈ ws.1, c ≠ ',' ∧ HeaderValue.isPrintable c = true := fun ws c hc =>
    ⟨ws.ne (by decide) c hc, List.all_eq_true.mp ws.printable c hc⟩
  intro c hc
  rcases List.mem_append.mp hc with hc | hc
  · exact hsolid _ e.name_solid c hc
  · cases hweight : e.weight with
    | none => rw [hweight] at hc; cases hc
    | some w =>
        rw [hweight, Option.elim_some, Weight.text] at hc
        simp only [List.mem_append, List.mem_cons] at hc
        rcases hc with hc | rfl | hc | rfl | rfl | hc
        · exact hows _ c hc
        · decide
        · exact hows _ c hc
        · split <;> decide
        · decide
        · exact hsolid _ w.value.text_solid c hc

theorem Item.text_chars (i : Item) : ∀ c ∈ i.text, c ≠ ',' ∧ HeaderValue.isPrintable c = true := by
  have hows : ∀ ws : Ows, ∀ c ∈ ws.1, c ≠ ',' ∧ HeaderValue.isPrintable c = true := fun ws c hc =>
    ⟨ws.ne (by decide) c hc, List.all_eq_true.mp ws.printable c hc⟩
  intro c hc
  unfold Item.text at hc
  simp only [List.mem_append] at hc
  rcases hc with (hc | hc) | hc
  · exact hows _ c hc
  · cases helement : i.element with
    | none => rw [helement] at hc; cases hc
    | some e =>
        rw [helement] at hc
        exact e.text_chars c hc
  · exact hows _ c hc

theorem Line.splitOn_text (l : Line) : l.text.splitOn ',' = l.items.map Item.text :=
  List.splitOn_intercalate ',' (fun s hs hc => by
    obtain ⟨i, _, rfl⟩ := List.mem_map.mp hs
    exact (i.text_chars _ hc).1 rfl) (by simpa using l.nonempty)

theorem intercalate_printable (items : List Item) :
    ∀ c ∈ List.intercalate [','] (items.map Item.text), HeaderValue.isPrintable c = true := by
  induction items with
  | nil => exact fun c hc => by cases hc
  | cons i rest ih =>
      intro c hc
      cases rest with
      | nil => exact (i.text_chars c (by simpa [List.intercalate] using hc)).2
      | cons next rest =>
          rw [List.map_cons, List.map_cons, List.intercalate_cons_cons] at hc
          rcases List.mem_append.mp hc with hc | hc
          · rcases List.mem_append.mp hc with hc | hc
            · exact (i.text_chars c hc).2
            · rw [List.mem_singleton.mp hc]; decide
          · exact ih c hc

theorem Line.text_printable (l : Line) : l.text.all HeaderValue.isPrintable = true :=
  List.all_eq_true.mpr (intercalate_printable l.items)

theorem qualityValues_line (laws : ReadsQvalues crates) (l : Line) : qualityValues crates l.value =
    ((l.items.map Item.read).insertionSort QualityMeta.before).map QualityMeta.data := by
  have hread : l.items.map (qualityMeta crates ∘ Item.text) = l.items.map Item.read :=
    List.map_congr_left fun i _ => qualityMeta_item laws i
  unfold qualityValues Line.value
  rw [(HeaderValue.fromStr_printable l.text_printable).2, Option.elim_some, l.splitOn_text, List.map_map, hread]

/-! ## All lines -/

def Item.indent (i : Item) : Item :=
  { i with before := ⟨' ' :: i.before.1, (Bool.and_eq_true _ _).mpr ⟨rfl, i.before.2⟩⟩ }

/-- The items of the line that several lines are joined to. Each line but the first gets a blank before it. -/
def Line.append (l l' : Line) : Line where
  items := l.items ++ l'.items.modifyHead Item.indent
  nonempty := fun h => l.nonempty (List.append_eq_nil_iff.mp h).1

theorem intercalate_append {sep : Str} {a b : List Str} (ha : a ≠ []) (hb : b ≠ []) :
    List.intercalate sep (a ++ b) = List.intercalate sep a ++ sep ++ List.intercalate sep b := by
  induction a with
  | nil => exact absurd rfl ha
  | cons x a ih =>
      cases a with
      | nil =>
          obtain ⟨y, b, rfl⟩ := List.exists_cons_of_ne_nil hb
          rw [List.singleton_append, List.intercalate_cons_cons]
          simp [List.intercalate]
      | cons y a =>
          rw [List.cons_append, List.cons_append, List.intercalate_cons_cons, List.intercalate_cons_cons,
            ← List.cons_append, ih (List.cons_ne_nil _ _)]
          simp

theorem Line.append_text (l l' : Line) : (l.append l').text = l.text ++ ", ".toList ++ l'.text := by
  obtain ⟨i, rest, hitems⟩ := List.exists_cons_of_ne_nil l'.nonempty
  have hindent : List.intercalate [','] ((l'.items.modifyHead Item.indent).map Item.text) = ' ' :: l'.text := by
    unfold Line.text
    rw [hitems, List.modifyHead_cons, List.map_cons, List.map_cons]
    cases rest with
    | nil => simp [List.intercalate, Item.text, Item.indent]
    | cons next rest =>
        rw [List.map_cons, List.intercalate_cons_cons, List.intercalate_cons_cons]
        simp [Item.text, Item.indent]
  change List.intercalate [','] ((l.items ++ l'.items.modifyHead Item.indent).map Item.text) = _
  rw [List.map_append, intercalate_append (by simpa using l.nonempty) (by simp [hitems]), hindent]
  simp [Line.text]

theorem joinValues_lines (l : Line) (lines : List Line) :
    joinValues ((l :: lines).map Line.value) = (lines.foldl Line.append l).value := by
  change (lines.map Line.value).foldl (fun buf value => buf ++ Posix.utf8 ", ".toList ++ value) l.value = _
  induction lines generalizing l with
  | nil => rfl
  | cons l' lines ih =>
      rw [List.map_cons, List.foldl_cons, List.foldl_cons, ← ih]
      congr 1
      simp only [Line.value, Line.append_text, Utf8.utf8_append]

theorem items_foldl_read (l : Line) (lines : List Line) :
    (lines.foldl Line.append l).items.map Item.read = ((l :: lines).flatMap Line.items).map Item.read := by
  have hindent : ∀ items : List Item, (items.modifyHead Item.indent).map Item.read = items.map Item.read := by
    intro items
    cases items <;> rfl
  induction lines generalizing l with
  | nil => simp
  | cons l' lines ih =>
      rw [List.foldl_cons, ih]
      simp [Line.append, hindent]

/-- What the header fields are that consist of the given lines. -/
def SendsLines (headers : HeaderMap) (lines : List Line) : Prop :=
  headers.getAll .acceptEncoding = lines.map Line.value

/-- The sorted codings depend on the items of all lines only. -/
theorem sortedEncodings_lines (laws : ReadsQvalues crates) {headers : HeaderMap} {l : Line} {lines : List Line}
    (h : SendsLines headers (l :: lines)) : sortedEncodings crates headers =
      some (((((l :: lines).flatMap Line.items).map Item.read).insertionSort QualityMeta.before).map fun m =>
        ContentCoding.ofStr m.data) := by
  have hsent : headers.getAll .acceptEncoding = l.value :: lines.map Line.value := h
  unfold sortedEncodings
  rw [hsent]
  dsimp only
  rw [← List.map_cons, joinValues_lines, qualityValues_line laws, items_foldl_read, List.map_map]
  rfl

/-! ## Codings -/

theorem Element.ofStr_name {e : Element} {c : ContentCoding} (hc : c ∈ negotiable) :
    ContentCoding.ofStr e.name = c ↔ e.readCoding = some c := by
  rw [Element.readCoding_eq_some, ContentCoding.ofStr]
  cases hname : ContentCoding.fromStr e.name with
  | none =>
      simp only [Option.getD_none, reduceCtorEq, false_and, iff_false]
      rintro rfl
      exact absurd hc (by decide)
  | some d => simp only [Option.getD_some, Option.some.injEq, hc, and_true]

theorem QualityMeta.before_refl (m : QualityMeta) : m.before m := .inr ⟨rfl, Nat.le_refl _⟩

theorem pairwise_sorted (metas : List QualityMeta) :
    (metas.insertionSort QualityMeta.before).Pairwise QualityMeta.before := by
  have : Std.Total QualityMeta.before := ⟨fun a b => by unfold QualityMeta.before; omega⟩
  have : IsTrans QualityMeta QualityMeta.before := ⟨fun a b c => by unfold QualityMeta.before; omega⟩
  exact List.pairwise_insertionSort _ _

theorem before_iff_ranks {m m' : QualityMeta} {c c' : ContentCoding} (hc : c ∈ negotiable) (hc' : c' ∈ negotiable)
    (hm : ContentCoding.ofStr m.data = c) (hm' : ContentCoding.ofStr m'.data = c') :
    m.before m' ↔ Ranks m.quality c m'.quality c' := by
  have htie : ∀ c ∈ negotiable, ∀ c' ∈ negotiable,
      c'.priority ≤ c.priority ↔ negotiable.idxOf c ≤ negotiable.idxOf c' := by decide
  unfold QualityMeta.before Ranks
  rw [hm, hm', htie c hc c' hc']

theorem mem_read_iff {lines : List Line} {m : QualityMeta} {c : ContentCoding} (hc : c ∈ negotiable) :
    (m ∈ (lines.flatMap Line.items).map Item.read ∧ ContentCoding.ofStr m.data = c) ↔
      ∃ e ∈ elementsOf lines, m = ⟨e.name, e.readQ⟩ ∧ e.readCoding = some c := by
  constructor
  · rintro ⟨hm, hdata⟩
    obtain ⟨i, hi, rfl⟩ := List.mem_map.mp hm
    unfold Item.read at hdata ⊢
    cases helement : i.element with
    | none =>
        rw [helement, Option.elim_none] at hdata
        rw [← hdata] at hc
        exact absurd hc (by decide)
    | some e =>
        rw [helement, Option.elim_some] at hdata
        exact ⟨e, List.mem_filterMap.mpr ⟨i, hi, helement⟩, rfl, (Element.ofStr_name hc).mp hdata⟩
  · rintro ⟨e, he, rfl, hnamed⟩
    obtain ⟨i, hi, helement⟩ := List.mem_filterMap.mp he
    refine ⟨List.mem_map.mpr ⟨i, hi, ?_⟩, (Element.ofStr_name hc).mpr hnamed⟩
    rw [Item.read, helement]
    rfl

/-- What the search of the sorted items ends at. -/
theorem leads_of_search {γ : Type} {lines : List Line} {pick : ContentCoding → Option γ}
    (hpick : ∀ c, (pick c).isSome = true → c ∈ negotiable) {g : γ}
    (h : (((lines.flatMap Line.items).map Item.read).insertionSort QualityMeta.before).findSome?
      (fun m => pick (ContentCoding.ofStr m.data)) = some g) :
    ∃ c, pick c = some g ∧ LeadsAsRead (elementsOf lines) (fun c => (pick c).isSome) c := by
  obtain ⟨m, hm, hg, hfirst⟩ := StableSort.findSome?_of_pairwise QualityMeta.before_refl (pairwise_sorted _) h
  have hhas : (pick (ContentCoding.ofStr m.data)).isSome = true := by rw [hg]; rfl
  have hc := hpick _ hhas
  obtain ⟨b, hb, rfl, hcoding⟩ := (mem_read_iff hc).mp ⟨(List.mem_insertionSort _).mp hm, rfl⟩
  refine ⟨_, hg, hhas, b, hb, hcoding, fun e he c' hcoding' hhas' => ?_⟩
  have hc' := hpick c' hhas'
  obtain ⟨hmem, hdata⟩ := (mem_read_iff hc').mpr ⟨e, he, rfl, hcoding'⟩
  have hbefore := hfirst _ ((List.mem_insertionSort _).mpr hmem) (by rw [hdata]; exact hhas')
  exact (before_iff_ranks hc hc' rfl hdata).mp hbefore

theorem search_eq_none_iff {γ : Type} (laws : ReadsQvalues crates) {headers : HeaderMap} {lines : List Line}
    (h : SendsLines headers lines) {pick : ContentCoding → Option γ}
    (hpick : ∀ c, (pick c).isSome = true → c ∈ negotiable) :
    (sortedEncodings crates headers).bind (·.findSome? pick) = none ↔
      ∀ e ∈ elementsOf lines, ∀ c, e.readCoding = some c → (pick c).isSome = false := by
  cases lines with
  | nil =>
      have hsent : headers.getAll .acceptEncoding = [] := h
      simp [sortedEncodings, hsent, elementsOf]
  | cons l lines =>
      rw [sortedEncodings_lines laws h, Option.bind_some, List.findSome?_map, List.findSome?_eq_none_iff]
      constructor
      · intro hnone e he c hcoding
        obtain ⟨hmem, hdata⟩ := (mem_read_iff (Element.readCoding_negotiable hcoding)).mpr ⟨e, he, rfl, hcoding⟩
        have hmiss := hnone _ ((List.mem_insertionSort _).mpr hmem)
        rw [Function.comp_apply, hdata] at hmiss
        rw [hmiss]
        rfl
      · intro hnone m hm
        cases hc : pick (ContentCoding.ofStr m.data) with
        | none => exact hc
        | some g =>
            have hhas : (pick (ContentCoding.ofStr m.data)).isSome = true := by rw [hc]; rfl
            obtain ⟨e, he, rfl, hcoding⟩ :=
              (mem_read_iff (hpick _ hhas)).mp ⟨(List.mem_insertionSort _).mp hm, rfl⟩
            rw [hnone e he _ hcoding] at hhas
            cases hhas

/-- The search of the sorted codings ends at the coding that leads as the lines are read. -/
theorem search_eq_some_iff {γ : Type} (laws : ReadsQvalues crates) {headers : HeaderMap} {lines : List Line}
    (h : SendsLines headers lines) {pick : ContentCoding → Option γ}
    (hpick : ∀ c, (pick c).isSome = true → c ∈ negotiable) {g : γ} :
    (sortedEncodings crates headers).bind (·.findSome? pick) = some g ↔
      ∃ c, pick c = some g ∧ LeadsAsRead (elementsOf lines) (fun c => (pick c).isSome) c := by
  have hfound : ∀ {g}, (sortedEncodings crates headers).bind (·.findSome? pick) = some g →
      ∃ c, pick c = some g ∧ LeadsAsRead (elementsOf lines) (fun c => (pick c).isSome) c := by
    intro g hg
    cases lines with
    | nil =>
        have hsent : headers.getAll .acceptEncoding = [] := h
        simp [sortedEncodings, hsent] at hg
    | cons l lines =>
        rw [sortedEncodings_lines laws h, Option.bind_some, List.findSome?_map] at hg
        exact leads_of_search hpick hg
  refine ⟨hfound, ?_⟩
  rintro ⟨c, hg, hleads⟩
  cases hsearch : (sortedEncodings crates headers).bind (·.findSome? pick) with
  | none =>
      obtain ⟨hhas, b, hb, hcoding, _⟩ := hleads
      cases hhas.symm.trans ((search_eq_none_iff laws h hpick).mp hsearch b hb c hcoding)
  | some g' =>
      obtain ⟨c', hg', hleads'⟩ := hfound hsearch
      rw [← hg', Leads.unique Element.readCoding_negotiable hleads' hleads, hg]

/-- Both searches of the codings depend on the elements of the lines only. -/
theorem search_congr {γ : Type} (laws : ReadsQvalues crates) {headers headers' : HeaderMap} {lines lines' : List Line}
    (h : SendsLines headers lines) (h' : SendsLines headers' lines')
    (hsame : ∀ e, e ∈ elementsOf lines ↔ e ∈ elementsOf lines') {pick : ContentCoding → Option γ}
    (hpick : ∀ c, (pick c).isSome = true → c ∈ negotiable) :
    (sortedEncodings crates headers).bind (·.findSome? pick) =
      (sortedEncodings crates headers').bind (·.findSome? pick) := by
  refine Option.ext fun g => ?_
  rw [search_eq_some_iff laws h hpick, search_eq_some_iff laws h' hpick]
  exact exists_congr fun c => and_congr_right fun _ => Leads.congr hsame c

theorem honors_search_iff {γ : Type} (laws : ReadsQvalues crates) {headers : HeaderMap} {lines : List Line}
    (h : SendsLines headers lines) {pick : ContentCoding → Option γ}
    (hpick : ∀ c, (pick c).isSome = true → c ∈ negotiable) {coding : γ → ContentCoding}
    (hcoding : ∀ c g, pick c = some g → coding g = c) :
    Honors (elementsOf lines) (fun c => (pick c).isSome)
        (((sortedEncodings crates headers).bind (·.findSome? pick)).map coding) ↔
      Undisturbed (elementsOf lines) fun c => (pick c).isSome := by
  have hleader : ∀ c, (pick c).isSome = true → Accepted (elementsOf lines) c →
      ∃ c, LeadsAsSent (elementsOf lines) (fun c => (pick c).isSome) c := by
    rintro c hhas ⟨e, he, hc⟩
    exact Leads.exists Element.acceptedCoding_negotiable he hc hhas
  constructor
  · intro hhonors
    cases hsearch : (sortedEncodings crates headers).bind (·.findSome? pick) with
    | none =>
        rw [hsearch] at hhonors
        refine ⟨fun c hleads => ?_, fun _ => (search_eq_none_iff laws h hpick).mp hsearch⟩
        cases hleads.1.symm.trans (hhonors c hleads.accepted)
    | some g =>
        rw [hsearch] at hhonors
        obtain ⟨c, hg, hread⟩ := (search_eq_some_iff laws h hpick).mp hsearch
        have hsent : LeadsAsSent (elementsOf lines) (fun c => (pick c).isSome) c := hcoding c g hg ▸ hhonors
        refine ⟨fun c' hleads => ?_, fun hnone => ?_⟩
        · rw [Leads.unique Element.acceptedCoding_negotiable hleads hsent]
          exact hread.2
        · cases hsent.1.symm.trans (hnone c hsent.accepted)
  · intro hkept
    cases hsearch : (sortedEncodings crates headers).bind (·.findSome? pick) with
    | none =>
        intro c haccepted
        by_contra hhas
        obtain ⟨c', hleads⟩ := hleader c (Bool.of_not_eq_false hhas) haccepted
        obtain ⟨b, hb, hb', _⟩ := hkept.leads c' hleads
        cases hleads.1.symm.trans ((search_eq_none_iff laws h hpick).mp hsearch b hb c' hb')
    | some g =>
        obtain ⟨c, hg, hread⟩ := (search_eq_some_iff laws h hpick).mp hsearch
        change LeadsAsSent _ _ (coding g)
        rw [hcoding c g hg]
        by_cases haccepted : ∃ c, (pick c).isSome = true ∧ Accepted (elementsOf lines) c
        · obtain ⟨c₁, hhas₁, haccepted₁⟩ := haccepted
          obtain ⟨c', hleads⟩ := hleader c₁ hhas₁ haccepted₁
          have hread' : LeadsAsRead (elementsOf lines) (fun c => (pick c).isSome) c' :=
            ⟨hleads.1, hkept.leads c' hleads⟩
          rw [Leads.unique Element.readCoding_negotiable hread hread']
          exact hleads
        · obtain ⟨hhas, b, hb, hc, _⟩ := hread
          have hrefused := hkept.refused fun c haccepted' =>
            Bool.of_not_eq_true fun hhas => haccepted ⟨c, hhas, haccepted'⟩
          cases hhas.symm.trans (hrefused b hb c hc)

end WeaveGate.Static

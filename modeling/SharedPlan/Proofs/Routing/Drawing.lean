import SharedPlan.Proofs.Json.Number
import SharedPlan.Proofs.Routing.Replay
import SharedPlan.Routing.Drawing

/-!
# SharedPlan.Proofs.Routing.Drawing

What a drawing says about a routing table.

A drawing is a sequence of statements, and every statement can be told off the front of
what is left of the text (`Statement.prefixFree_text`): numbers end where no digit
follows, a label ends at the first quotation mark without a backslash before it, and no
exit is written with either.  So whatever the names are, two drawings with the same text
have the same statements, and the tables behind them the same waypoints, labels, links and
exits (`RoutingTable.toDot_faithful`).
-/

namespace SharedPlan

/-! ## Telling texts off the front -/

/-- Texts that can be told off the front of any text that begins with one of them. -/
def PrefixFree {α : Type} (f : α → List Char) : Prop :=
  ∀ a b r s, f a ++ r = f b ++ s → a = b ∧ r = s

/-- Texts one after another can be told apart, if none begins like what follows the last. -/
theorem PrefixFree.flatMap_inj {α : Type} {f : α → List Char} (hf : PrefixFree f)
    {tail : List Char} (hend : ∀ a r, f a ++ r ≠ tail) {l m : List α}
    (h : l.flatMap f ++ tail = m.flatMap f ++ tail) : l = m := by
  induction l generalizing m with
  | nil =>
      cases m with
      | nil => rfl
      | cons b m =>
          rw [List.flatMap_cons, List.append_assoc] at h
          exact absurd h.symm (hend b _)
  | cons a l ih =>
      cases m with
      | nil =>
          rw [List.flatMap_cons, List.append_assoc] at h
          exact absurd h (hend a _)
      | cons b m =>
          simp only [List.flatMap_cons, List.append_assoc] at h
          obtain ⟨rfl, hrest⟩ := hf a b _ _ h
          rw [ih hrest]

/-- A run of characters of a class ends at the first one that is not of it. -/
theorem append_cons_inj {p : Char → Prop} {x y r s : List Char} {c d : Char}
    (hx : ∀ a ∈ x, p a) (hy : ∀ a ∈ y, p a) (hc : ¬p c) (hd : ¬p d)
    (h : x ++ c :: r = y ++ d :: s) : x = y ∧ c = d ∧ r = s := by
  induction x generalizing y with
  | nil =>
      cases y with
      | nil => exact ⟨rfl, List.cons.inj h⟩
      | cons b y => exact absurd ((List.cons.inj h).1 ▸ hy b List.mem_cons_self) hc
  | cons a x ih =>
      cases y with
      | nil => exact absurd ((List.cons.inj h).1 ▸ hx a List.mem_cons_self) hd
      | cons b y =>
          obtain ⟨rfl, hrest⟩ := List.cons.inj h
          obtain ⟨rfl, htail⟩ := ih (fun e he => hx e (List.mem_cons_of_mem _ he))
            (fun e he => hy e (List.mem_cons_of_mem _ he)) hrest
          exact ⟨rfl, htail⟩

/-! ## Numbers -/

theorem toDigits_inj {m n : Nat} (h : Nat.toDigits 10 m = Nat.toDigits 10 n) : m = n := by
  rw [← Nat.ofDigitChars_ten_toDigits (n := m), h, Nat.ofDigitChars_ten_toDigits]

/-- A number ends where no digit follows. -/
theorem toDigits_append_inj {m n : Nat} {c d : Char} {r s : List Char}
    (hc : c.isDigit = false) (hd : d.isDigit = false)
    (h : Nat.toDigits 10 m ++ c :: r = Nat.toDigits 10 n ++ d :: s) : m = n ∧ c = d ∧ r = s := by
  obtain ⟨hdigits, hrest⟩ := append_cons_inj (p := fun c => c.isDigit = true)
    (fun _ => Json.isDigit_of_mem) (fun _ => Json.isDigit_of_mem) (by simp [hc]) (by simp [hd]) h
  exact ⟨toDigits_inj hdigits, hrest⟩

/-! ## Exits -/

/-- The characters of a label that need no backslash before them. -/
def Plain (c : Char) : Prop := c ≠ '"' ∧ c ≠ '\\'

theorem plain_of_mem_toDigits {n : Nat} {c : Char} (hc : c ∈ Nat.toDigits 10 n) : Plain c :=
  ⟨Json.ne_of_isDigit (Json.isDigit_of_mem hc) rfl, Json.ne_of_isDigit (Json.isDigit_of_mem hc) rfl⟩

/-- The ways in which a waypoint is written. -/
theorem WaypointId.toList_text (w : WaypointId) :
    (w = bottom ∧ w.text.toList = "<bottom>".toList) ∨
      (w = top ∧ w.text.toList = "<top>".toList) ∨
        w.text.toList = 'w' :: 'p' :: Nat.toDigits 10 w.val.toNat := by
  unfold text
  split
  · rename_i hbottom
    exact .inl ⟨hbottom, rfl⟩
  · split
    · rename_i htop
      exact .inr (.inl ⟨htop, rfl⟩)
    · refine .inr (.inr ?_)
      rw [String.toList_append, Json.toList_toString]
      rfl

theorem WaypointId.eq_of_toNat {m n : WaypointId} (h : m.val.toNat = n.val.toNat) : m = n := by
  cases m
  cases n
  exact congrArg _ (UInt32.toNat_inj.1 h)

/-- Waypoints are told apart by their texts. -/
theorem WaypointId.text_inj {m n : WaypointId} (h : m.text.toList = n.text.toList) : m = n := by
  have hnumber : 'w' :: 'p' :: Nat.toDigits 10 m.val.toNat =
      'w' :: 'p' :: Nat.toDigits 10 n.val.toNat → m = n :=
    fun h => eq_of_toNat (toDigits_inj (List.cons.inj (List.cons.inj h).2).2)
  rcases m.toList_text with ⟨hm, htext⟩ | ⟨hm, htext⟩ | htext <;>
    rcases n.toList_text with ⟨hn, htext'⟩ | ⟨hn, htext'⟩ | htext' <;>
    rw [htext, htext'] at h <;> simp_all

theorem WaypointId.plain_of_mem_text {w : WaypointId} {c : Char} (hc : c ∈ w.text.toList) :
    Plain c := by
  rcases w.toList_text with ⟨-, hw⟩ | ⟨-, hw⟩ | hw <;> rw [hw] at hc
  · revert c
    simp [Plain]
  · revert c
    simp [Plain]
  · rcases List.mem_cons.1 hc with rfl | hc
    · simp [Plain]
    · rcases List.mem_cons.1 hc with rfl | hc
      · simp [Plain]
      · exact plain_of_mem_toDigits hc

theorem QueryExit.toList_text (e : QueryExit) :
    e.text.toList = "(query#".toList ++ (Nat.toDigits 10 e.query.val.toNat ++
      ',' :: ' ' :: (e.exit.text.toList ++ [')'])) := by
  simp [text, QueryId.text]

/-- Exits are told apart by their texts. -/
theorem QueryExit.text_inj {e x : QueryExit} (h : e.text.toList = x.text.toList) : e = x := by
  rw [toList_text, toList_text] at h
  obtain ⟨hquery, -, hrest⟩ :=
    toDigits_append_inj (by decide) (by decide) (List.append_cancel_left h)
  have hexit := WaypointId.text_inj (List.append_cancel_right (List.cons.inj hrest).2)
  have hval : e.query.val = x.query.val := UInt8.toNat_inj.1 hquery
  obtain ⟨⟨q⟩, m⟩ := e
  obtain ⟨⟨t⟩, n⟩ := x
  exact congrArg₂ (fun q m => (⟨⟨q⟩, m⟩ : QueryExit)) hval hexit

theorem QueryExit.plain_of_mem_text {e : QueryExit} {c : Char} (hc : c ∈ e.text.toList) :
    Plain c := by
  simp only [toList_text, List.mem_append, List.mem_cons, List.not_mem_nil, or_false] at hc
  rcases hc with hc | hc | rfl | rfl | hc | rfl
  · revert c
    simp [Plain]
  · exact plain_of_mem_toDigits hc
  · simp [Plain]
  · simp [Plain]
  · exact WaypointId.plain_of_mem_text hc
  · simp [Plain]

/-- What follows a text in a list of texts that ends in a quotation mark. -/
def listTail (l : List (List Char)) (r : List Char) : List Char :=
  if l = [] then '"' :: r else '\\' :: 'n' :: ("\\n".toList.intercalate l ++ '"' :: r)

theorem intercalate_cons_append (a : List Char) (l : List (List Char)) (r : List Char) :
    "\\n".toList.intercalate (a :: l) ++ '"' :: r = a ++ listTail l r := by
  cases l with
  | nil => simp [listTail]
  | cons b l => simp [listTail, List.intercalate_cons_cons]

/-- What follows a text does not continue it. -/
theorem exists_listTail (l : List (List Char)) (r : List Char) :
    ∃ c s, listTail l r = c :: s ∧ ¬Plain c := by
  unfold listTail
  split
  · exact ⟨'"', r, rfl, by simp [Plain]⟩
  · exact ⟨'\\', _, rfl, by simp [Plain]⟩

/-- A list of texts is told off the front, up to the quotation mark behind it. -/
theorem intercalate_append_inj {l m : List (List Char)} (hl : ∀ a ∈ l, a ≠ [] ∧ ∀ c ∈ a, Plain c)
    (hm : ∀ a ∈ m, a ≠ [] ∧ ∀ c ∈ a, Plain c) {r s : List Char}
    (h : "\\n".toList.intercalate l ++ '"' :: r = "\\n".toList.intercalate m ++ '"' :: s) :
    l = m ∧ r = s := by
  have hhead {a : List Char} (l : List (List Char)) (r s : List Char)
      (ha : a ≠ [] ∧ ∀ c ∈ a, Plain c) : a ++ listTail l r ≠ '"' :: s := by
    obtain ⟨c, a, rfl⟩ := List.exists_cons_of_ne_nil ha.1
    intro heq
    exact ((List.cons.inj heq).1 ▸ ha.2 c List.mem_cons_self).1 rfl
  induction l generalizing m with
  | nil =>
      cases m with
      | nil => exact ⟨rfl, (List.cons.inj h).2⟩
      | cons b m =>
          rw [intercalate_cons_append] at h
          exact absurd h.symm (hhead m s _ (hm b List.mem_cons_self))
  | cons a l ih =>
      rw [intercalate_cons_append] at h
      obtain ⟨ha, hl⟩ := List.forall_mem_cons.1 hl
      cases m with
      | nil => exact absurd h (hhead l r _ ha)
      | cons b m =>
          rw [intercalate_cons_append] at h
          obtain ⟨hb, hrest⟩ := List.forall_mem_cons.1 hm
          obtain ⟨c, r', hr, hc⟩ := exists_listTail l r
          obtain ⟨d, s', hs, hd⟩ := exists_listTail m s
          rw [hr, hs] at h
          obtain ⟨rfl, rfl, rfl⟩ := append_cons_inj ha.2 hb.2 hc hd h
          have htail : listTail l r = listTail m s := hr.trans hs.symm
          -- both lists go on, or both end
          cases l with
          | nil =>
              cases m with
              | nil => exact ⟨rfl, (List.cons.inj htail).2⟩
              | cons b m => exact absurd (List.cons.inj htail).1 (by decide)
          | cons a l =>
              cases m with
              | nil => exact absurd (List.cons.inj htail).1 (by decide)
              | cons b m =>
                  obtain ⟨heq, hend⟩ := ih hl hrest (List.cons.inj (List.cons.inj htail).2).2
                  exact ⟨congrArg _ heq, hend⟩

/-! ## Labels -/

/-- A text with a backslash before each of its quotation marks and backslashes. -/
def escaped (s : List Char) : List Char :=
  s.flatMap fun c => if c = '\\' ∨ c = '"' then ['\\', c] else [c]

/-- A text with a backslash before each occurrence of a character. -/
def guarded (c : Char) (s : List Char) : List Char :=
  s.flatMap fun d => if d = c then ['\\', d] else [d]

/-- Backslashes may be doubled first, and the quotation marks guarded thereafter. -/
theorem guarded_guarded (s : List Char) : guarded '"' (guarded '\\' s) = escaped s := by
  unfold guarded escaped
  rw [List.flatMap_assoc]
  congr 1
  funext c
  by_cases hbackslash : c = '\\' <;> by_cases hquote : c = '"' <;> simp [hbackslash, hquote]

theorem escaped_cons (c : Char) (s : List Char) :
    escaped (c :: s) = (if c = '\\' ∨ c = '"' then ['\\', c] else [c]) ++ escaped s := rfl

/-- No character is written as a quotation mark alone. -/
theorem escaped_cons_append_ne (c : Char) (s r t : List Char) :
    escaped (c :: s) ++ r ≠ '"' :: t := by
  rw [escaped_cons]
  split
  · simp
  · rename_i hplain
    intro h
    exact hplain (.inr (List.cons.inj h).1)

/-- **A label is told off the front**, up to the quotation mark behind it, whatever it is. -/
theorem escaped_append_inj {s t : List Char} {r u : List Char}
    (h : escaped s ++ '"' :: r = escaped t ++ '"' :: u) : s = t ∧ r = u := by
  induction s generalizing t with
  | nil =>
      cases t with
      | nil => exact ⟨rfl, (List.cons.inj h).2⟩
      | cons d t => exact absurd h.symm (escaped_cons_append_ne d t _ _)
  | cons c s ih =>
      cases t with
      | nil => exact absurd h (escaped_cons_append_ne c s _ _)
      | cons d t =>
          have hcd : c = d ∧ escaped s ++ '"' :: r = escaped t ++ '"' :: u := by
            rw [escaped_cons, escaped_cons] at h
            split at h <;> split at h <;> grind
          obtain ⟨rfl, hrest⟩ := ih hcd.2
          exact ⟨congrArg₂ _ hcd.1 rfl, hrest⟩

/-! ## Statements -/

namespace RoutingTable

/-- A statement of a drawing. -/
inductive Statement where
  | node (id : WaypointId) (label : String)
  | link (sender receiver : WaypointId) (exits : ExitSet)

/-- A statement as it is written. -/
def Statement.text : Statement → String
  | node id label => dotStatement (dotNode id) (escapeLabel label)
  | link sender receiver exits => dotStatement (dotNode sender ++ " -> " ++ dotNode receiver)
      ("\\n".intercalate (exits.toList.map (·.text)))

/-- The statements of the drawing of a table. -/
def statements (t : RoutingTable) (names : WaypointNames) : List Statement :=
  (t.nodes.keys.map fun id => .node id (names.label id)) ++
    t.links.map fun (sender, receiver, exits) => .link sender receiver exits

theorem toList_toDot (t : RoutingTable) (names : WaypointNames) :
    (t.toDot names).toList = "digraph routing \x7b\n    rankdir=BT;\n".toList ++
      ((t.statements names).flatMap (fun a => a.text.toList) ++ "\x7d\n".toList) := by
  unfold toDot
  simp only [statements, Statement.text, List.flatMap_append, List.flatMap_map, List.append_assoc,
    String.toList_append, String.toList_join]

theorem Statement.toList_node (id : WaypointId) (label : String) (r : List Char) :
    (node id label).text.toList ++ r = "    n".toList ++ (Nat.toDigits 10 id.val.toNat ++
      (" [label=\"".toList ++ (escaped label.toList ++ ("\"];\n".toList ++ r)))) := by
  simp [text, dotStatement, dotNode, escapeLabel, escaped]

theorem Statement.toList_link (sender receiver : WaypointId) (exits : ExitSet) (r : List Char) :
    (link sender receiver exits).text.toList ++ r =
      "    n".toList ++ (Nat.toDigits 10 sender.val.toNat ++ (" -> n".toList ++
        (Nat.toDigits 10 receiver.val.toNat ++ (" [label=\"".toList ++
          ("\\n".toList.intercalate (exits.toList.map fun e => e.text.toList) ++
            ("\"];\n".toList ++ r)))))) := by
  simp [text, dotStatement, dotNode, List.map_map, Function.comp_def]

/-- The exits of a link are told off the front. -/
theorem exits_append_inj {exits exits' : ExitSet} {r s : List Char}
    (h : "\\n".toList.intercalate (exits.toList.map fun e => e.text.toList) ++ '"' :: r =
      "\\n".toList.intercalate (exits'.toList.map fun e => e.text.toList) ++ '"' :: s) :
    exits = exits' ∧ r = s := by
  have hplain (exits : ExitSet) : ∀ a ∈ exits.toList.map fun e => e.text.toList,
      a ≠ [] ∧ ∀ c ∈ a, Plain c := by
    intro a ha
    obtain ⟨e, -, rfl⟩ := List.mem_map.1 ha
    exact ⟨by simp [QueryExit.toList_text], fun c => QueryExit.plain_of_mem_text⟩
  obtain ⟨htexts, hrest⟩ := intercalate_append_inj (hplain exits) (hplain exits') h
  have hlist := List.map_injective_iff.2 (fun _ _ => QueryExit.text_inj) htexts
  cases exits
  cases exits'
  exact ⟨by simpa using hlist, hrest⟩

/-- **A statement is told off the front.** -/
theorem Statement.prefixFree_text : PrefixFree fun a : Statement => a.text.toList := by
  intro a b r s h
  have hblank : ' '.isDigit = false := by decide
  cases a with
  | node id label =>
      rw [toList_node] at h
      cases b with
      | node id' label' =>
          rw [toList_node] at h
          obtain ⟨hid, -, hrest⟩ := toDigits_append_inj hblank hblank (List.append_cancel_left h)
          obtain ⟨hlabel, hend⟩ := escaped_append_inj
            (@List.append_cancel_left _ "[label=\"".toList _ _ hrest)
          obtain rfl := WaypointId.eq_of_toNat hid
          obtain rfl := String.toList_inj.1 hlabel
          exact ⟨rfl, @List.append_cancel_left _ "];\n".toList _ _ hend⟩
      | link sender receiver exits =>
          rw [toList_link] at h
          obtain ⟨-, -, hrest⟩ := toDigits_append_inj hblank hblank (List.append_cancel_left h)
          exact absurd (List.cons.inj hrest).1 (by decide)
  | link sender receiver exits =>
      rw [toList_link] at h
      cases b with
      | node id label =>
          rw [toList_node] at h
          obtain ⟨-, -, hrest⟩ := toDigits_append_inj hblank hblank (List.append_cancel_left h)
          exact absurd (List.cons.inj hrest).1 (by decide)
      | link sender' receiver' exits' =>
          rw [toList_link] at h
          obtain ⟨hsender, -, hrest⟩ := toDigits_append_inj hblank hblank (List.append_cancel_left h)
          obtain ⟨hreceiver, -, hrest⟩ := toDigits_append_inj hblank hblank
            (@List.append_cancel_left _ "-> n".toList _ _ hrest)
          obtain ⟨rfl, hend⟩ := exits_append_inj
            (@List.append_cancel_left _ "[label=\"".toList _ _ hrest)
          obtain rfl := WaypointId.eq_of_toNat hsender
          obtain rfl := WaypointId.eq_of_toNat hreceiver
          exact ⟨rfl, @List.append_cancel_left _ "];\n".toList _ _ hend⟩

/-- Drawings with the same text have the same statements. -/
theorem statements_inj {t t' : RoutingTable} {names names' : WaypointNames}
    (h : t.toDot names = t'.toDot names') : t.statements names = t'.statements names' := by
  have hlist := congrArg String.toList h
  rw [toList_toDot, toList_toDot] at hlist
  refine Statement.prefixFree_text.flatMap_inj (fun a r hr => ?_) (List.append_cancel_left hlist)
  cases a with
  | node id label =>
      rw [Statement.toList_node] at hr
      exact absurd (List.cons.inj hr).1 (by decide)
  | link sender receiver exits =>
      rw [Statement.toList_link] at hr
      exact absurd (List.cons.inj hr).1 (by decide)

/-- The waypoint and the label of a statement about a waypoint. -/
def Statement.node? : Statement → Option (WaypointId × String)
  | node id label => some (id, label)
  | link .. => none

/-- The ends and the exits of a statement about a link. -/
def Statement.link? : Statement → Option (WaypointId × WaypointId × ExitSet)
  | node .. => none
  | link sender receiver exits => some (sender, receiver, exits)

theorem filterMap_node?_statements (t : RoutingTable) (names : WaypointNames) :
    (t.statements names).filterMap Statement.node? =
      t.nodes.keys.map fun id => (id, names.label id) := by
  simp [statements, List.filterMap_append, List.filterMap_map, Function.comp_def, Statement.node?]

theorem filterMap_link?_statements (t : RoutingTable) (names : WaypointNames) :
    (t.statements names).filterMap Statement.link? = t.links := by
  simp [statements, List.filterMap_append, List.filterMap_map, Function.comp_def, Statement.link?]

/-- A drawing shows the waypoints of a table, their labels and the links with their exits. -/
theorem eq_of_toDot {t t' : RoutingTable} {names names' : WaypointNames}
    (h : t.toDot names = t'.toDot names') :
    t.nodes.keys = t'.nodes.keys ∧ (∀ id ∈ t.nodes.keys, names.label id = names'.label id) ∧
      t.links = t'.links := by
  have hstatements := statements_inj h
  have hnodes := congrArg (List.filterMap Statement.node?) hstatements
  have hlinks := congrArg (List.filterMap Statement.link?) hstatements
  rw [filterMap_node?_statements, filterMap_node?_statements] at hnodes
  rw [filterMap_link?_statements, filterMap_link?_statements] at hlinks
  have hkeys : t.nodes.keys = t'.nodes.keys := by
    simpa [Function.comp_def] using congrArg (List.map Prod.fst) hnodes
  rw [← hkeys, List.map_inj_left] at hnodes
  exact ⟨hkeys, fun id hid => (Prod.mk.inj (hnodes id hid)).2, hlinks⟩

/-- Tables that were grown are the same if they list the same waypoints and links. -/
theorem eq_of_contains_of_link? {calls calls' : List Growth}
    (hnodes : ∀ id, (grown calls).contains id = (grown calls').contains id)
    (hlinks : ∀ m n, (grown calls).link? m n = (grown calls').link? m n) :
    grown calls = grown calls' := by
  obtain ⟨ids, C, h⟩ := exists_holds_grown calls
  obtain ⟨ids', C', h'⟩ := exists_holds_grown calls'
  refine h.unique ⟨fun id => ?_, fun m n e => ?_, h'.inhabited, h'.mirrored⟩
  · rw [← hnodes, h.contains]
  · rw [← h.carries, Carries, Carries, hlinks]

/-- **A drawing is faithful, and no name can forge it.**  Labels are escaped as if their
backslashes were doubled first and their quotation marks guarded thereafter.  Two tables that
were grown from the empty one, drawn with any names, have the same drawing exactly when they
have the same waypoints, each with the same label under both, and the same links with the same
exits. -/
theorem toDot_faithful (calls calls' : List Growth) (names names' : WaypointNames) :
    let t := grown calls
    let t' := grown calls'
    (∀ name, (escapeLabel name).toList = guarded '"' (guarded '\\' name.toList)) ∧
    (t.toDot names = t'.toDot names' ↔
      (∀ id, t.contains id = t'.contains id) ∧
      (∀ id, t.contains id = true → names.label id = names'.label id) ∧
      ∀ m n, t.link? m n = t'.link? m n) := by
  intro t t'
  refine ⟨fun name => ?_, fun h => ?_, fun ⟨hnodes, hlabels, hlinks⟩ => ?_⟩
  · rw [guarded_guarded, escapeLabel, String.toList_ofList, escaped]
  · obtain ⟨hkeys, hlabels, hlinks⟩ := eq_of_toDot h
    refine ⟨fun id => ?_, fun id hid => hlabels id (OrdMap.mem_keys_iff.2 hid), fun m n => ?_⟩
    · have hiff := OrdMap.mem_keys_iff (m := t.nodes) (k := id)
      rw [hkeys, OrdMap.mem_keys_iff] at hiff
      exact Bool.eq_iff_iff.2 hiff.symm
    · ext1 exits
      rw [← mem_links, ← mem_links, hlinks]
  · obtain heq : t = t' := eq_of_contains_of_link? hnodes hlinks
    have hnames : t.nodes.keys.map (fun id => dotStatement (dotNode id)
        (escapeLabel (names.label id))) = t.nodes.keys.map fun id => dotStatement (dotNode id)
          (escapeLabel (names'.label id)) :=
      List.map_congr_left fun id hid => by rw [hlabels id (OrdMap.mem_keys_iff.1 hid)]
    rw [← heq]
    unfold toDot
    rw [hnames]

/-- A name that imitates a second statement is drawn as one label. -/
theorem toDot_faithful_forged :
    (grown [.node ⟨2⟩]).toDot (WaypointNames.initial.intern "x\"];\n  n3 [label=\"y").2 ≠
      (grown [.node ⟨2⟩, .node ⟨3⟩]).toDot
        ((WaypointNames.initial.intern "x").2.intern "y").2 := by
  intro h
  obtain ⟨hcontains, -⟩ := (toDot_faithful _ _ _ _).2.1 h
  exact absurd (hcontains ⟨3⟩) (by decide)

end RoutingTable

end SharedPlan

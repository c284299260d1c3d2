import Mathlib.Logic.Relation

/-!
# A tree of mounts

Directories with their names, and the mounts that show them. A place is a directory as seen
through a mount; at most one mount lies on a place, and a mount lies on at most one. A path
is walked name by name: at each directory the walk goes on to what is mounted there, a link
puts its target in front of the names that are left, and `..` leaves a mount by the place it
lies on, but never the root of the process.

A tree knows which mounts and directories there have been, so a new one is one that it does
not know. `Extends` is growth by what is new: a walk stays what it was (`Walks.extend`).
-/

namespace MountTree

variable {Mnt Dir : Type}

abbrev Name : Type := List UInt8

/-- A directory as it is seen through a mount. -/
structure Loc (Mnt Dir : Type) where
  mnt : Mnt
  dir : Dir
deriving DecidableEq

/-- What a name in a directory stands for. -/
inductive Node (Dir : Type)
  | dir (d : Dir)
  | link (target : List UInt8)
  | file
deriving DecidableEq

structure Tree (Mnt Dir : Type) where
  entry : Dir → Name → Option (Node Dir)
  parent : Dir → Dir
  /-- the directory that a mount shows -/
  top : Mnt → Dir
  /-- the mount that lies on a place -/
  on : Loc Mnt Dir → Option Mnt
  root : Loc Mnt Dir
  cwd : Loc Mnt Dir
  /-- the mounts and directories that there have been -/
  mounts : Mnt → Prop
  dirs : Dir → Prop
  once : ∀ {l l' m}, on l = some m → on l' = some m → l = l'
  known_on : ∀ {l m}, on l = some m → mounts m ∧ mounts l.mnt ∧ dirs l.dir
  known_entry : ∀ {p n d}, entry p n = some (.dir d) → dirs d
  known_parent : ∀ {d}, dirs d → dirs (parent d)
  known_top : ∀ {m}, mounts m → dirs (top m)
  known_root : mounts root.mnt ∧ dirs root.dir
  known_cwd : mounts cwd.mnt ∧ dirs cwd.dir

/-! ## Paths -/

def dot : Name := [46]
def dotdot : Name := [46, 46]

/-- A name that is looked up in a directory. -/
def Ordinary (n : Name) : Prop := n ≠ dot ∧ n ≠ dotdot

instance (n : Name) : Decidable (Ordinary n) := inferInstanceAs (Decidable (_ ∧ _))

/-- The names in a path, between its slashes. -/
def components (path : List UInt8) : List Name := (path.splitOn 47).filter (· ≠ [])

theorem components_slash (path : List UInt8) : components (47 :: path) = components path := by
  simp [components, List.splitOn_cons_eq_if_modifyHead]

theorem components_name {n : Name} (hn : 47 ∉ n) (hne : n ≠ []) : components n = [n] := by
  simp [components, List.splitOn_eq_singleton hn, hne]

theorem components_cons {n : Name} (hn : 47 ∉ n) (hne : n ≠ []) (path : List UInt8) :
    components (n ++ 47 :: path) = n :: components path := by
  unfold components
  rw [List.splitOn_append_cons_of_beq _ _ (beq_self_eq_true _), List.splitOn_eq_singleton hn,
    List.singleton_append, List.filter_cons_of_pos (by simpa using hne)]

namespace Tree

variable (t : Tree Mnt Dir)

def Known (l : Loc Mnt Dir) : Prop := t.mounts l.mnt ∧ t.dirs l.dir

/-- Where a path begins that is met at the place `l`. -/
def «from» (l : Loc Mnt Dir) (path : List UInt8) : Loc Mnt Dir :=
  if path.head? = some 47 then t.root else l

/-- What lies on a place, up to the last mount. -/
inductive Crosses : Loc Mnt Dir → Loc Mnt Dir → Prop
  | stay {l : Loc Mnt Dir} : t.on l = none → Crosses l l
  | cross {l l' : Loc Mnt Dir} {m : Mnt} : t.on l = some m → Crosses ⟨m, t.top m⟩ l' →
      Crosses l l'

/-- One name of a path leads to a place, with names to go on with. -/
inductive Moves : Loc Mnt Dir → Name → Loc Mnt Dir → List Name → Prop
  | here {l : Loc Mnt Dir} : Moves l dot l []
  | atRoot : Moves t.root dotdot t.root []
  | up {l l' : Loc Mnt Dir} : l ≠ t.root → l.dir ≠ t.top l.mnt →
      t.Crosses ⟨l.mnt, t.parent l.dir⟩ l' → Moves l dotdot l' []
  | out {l l' : Loc Mnt Dir} : l ≠ t.root → l.dir = t.top l.mnt → t.on l' = some l.mnt →
      Moves l dotdot l' [dotdot]
  | off {l : Loc Mnt Dir} : l ≠ t.root → l.dir = t.top l.mnt → (∀ l', t.on l' ≠ some l.mnt) →
      Moves l dotdot l []
  | dir {l l' : Loc Mnt Dir} {n : Name} {d : Dir} : Ordinary n →
      t.entry l.dir n = some (.dir d) → t.Crosses ⟨l.mnt, d⟩ l' → Moves l n l' []
  | link {l : Loc Mnt Dir} {n : Name} {target : List UInt8} : Ordinary n →
      t.entry l.dir n = some (.link target) → Moves l n (t.from l target) (components target)

inductive Walks : Loc Mnt Dir → List Name → Loc Mnt Dir → Prop
  | done {l : Loc Mnt Dir} : Walks l [] l
  | step {l l₁ l' : Loc Mnt Dir} {n : Name} {ms ns : List Name} : t.Moves l n l₁ ms →
      Walks l₁ (ms ++ ns) l' → Walks l (n :: ns) l'

/-- The path is the name of a place. -/
def Names (path : List UInt8) (l : Loc Mnt Dir) : Prop :=
  path ≠ [] ∧ t.Walks (t.from t.cwd path) (components path) l

/-- The path is a name `n` in the directory of the place `l`. -/
def NamesIn (path : List UInt8) (l : Loc Mnt Dir) (n : Name) : Prop :=
  Ordinary n ∧ ∃ ns, components path = ns ++ [n] ∧ t.Walks (t.from t.cwd path) ns l

/-- The mount `m'` is `m`, or lies on something in it. -/
def Under : Mnt → Mnt → Prop :=
  Relation.ReflTransGen fun m m' => ∃ d, t.on ⟨m, d⟩ = some m'

variable {t} {t' : Tree Mnt Dir} {a b b' l : Loc Mnt Dir} {n : Name} {ns ms : List Name}

/-! ## A path is the name of one place -/

theorem Crosses.det (h : t.Crosses a b) (h' : t.Crosses a b') : b = b' := by
  induction h with
  | stay hnone =>
    cases h' with
    | stay _ => rfl
    | cross hsome _ => exact nomatch hnone.symm.trans hsome
  | cross hsome _ ih =>
    cases h' with
    | stay hnone => exact nomatch hnone.symm.trans hsome
    | cross hsome' hc' =>
      obtain rfl := Option.some.inj (hsome.symm.trans hsome')
      exact ih hc'

theorem ordinary_dot : ¬ Ordinary dot := fun h => h.1 rfl

theorem ordinary_dotdot : ¬ Ordinary dotdot := fun h => h.2 rfl

theorem Moves.det (h : t.Moves a n b ms) (h' : t.Moves a n b' ns) : b = b' ∧ ms = ns := by
  cases h with
  | here =>
    cases h' with
    | here => exact ⟨rfl, rfl⟩
    | dir hn => exact absurd hn ordinary_dot
    | link hn => exact absurd hn ordinary_dot
  | atRoot =>
    cases h' with
    | atRoot => exact ⟨rfl, rfl⟩
    | up hroot => exact absurd rfl hroot
    | out hroot => exact absurd rfl hroot
    | off hroot => exact absurd rfl hroot
    | dir hn => exact absurd hn ordinary_dotdot
    | link hn => exact absurd hn ordinary_dotdot
  | up hroot htop hc =>
    cases h' with
    | atRoot => exact absurd rfl hroot
    | up _ _ hc' => exact ⟨hc.det hc', rfl⟩
    | out _ htop' => exact absurd htop' htop
    | off _ htop' => exact absurd htop' htop
    | dir hn => exact absurd hn ordinary_dotdot
    | link hn => exact absurd hn ordinary_dotdot
  | out hroot htop hon =>
    cases h' with
    | atRoot => exact absurd rfl hroot
    | up _ htop' => exact absurd htop htop'
    | out _ _ hon' => exact ⟨t.once hon hon', rfl⟩
    | off _ _ hoff => exact absurd hon (hoff _)
    | dir hn => exact absurd hn ordinary_dotdot
    | link hn => exact absurd hn ordinary_dotdot
  | off hroot htop hoff =>
    cases h' with
    | atRoot => exact absurd rfl hroot
    | up _ htop' => exact absurd htop htop'
    | out _ _ hon => exact absurd hon (hoff _)
    | off _ _ _ => exact ⟨rfl, rfl⟩
    | dir hn => exact absurd hn ordinary_dotdot
    | link hn => exact absurd hn ordinary_dotdot
  | dir hn hentry hc =>
    cases h' with
    | here => exact absurd hn ordinary_dot
    | atRoot => exact absurd hn ordinary_dotdot
    | up => exact absurd hn ordinary_dotdot
    | out => exact absurd hn ordinary_dotdot
    | off => exact absurd hn ordinary_dotdot
    | dir _ hentry' hc' =>
      obtain rfl := Node.dir.inj (Option.some.inj (hentry.symm.trans hentry'))
      exact ⟨hc.det hc', rfl⟩
    | link _ hentry' => exact nomatch hentry.symm.trans hentry'
  | link hn hentry =>
    cases h' with
    | here => exact absurd hn ordinary_dot
    | atRoot => exact absurd hn ordinary_dotdot
    | up => exact absurd hn ordinary_dotdot
    | out => exact absurd hn ordinary_dotdot
    | off => exact absurd hn ordinary_dotdot
    | dir _ hentry' => exact nomatch hentry.symm.trans hentry'
    | link _ hentry' =>
      obtain rfl := Node.link.inj (Option.some.inj (hentry.symm.trans hentry'))
      exact ⟨rfl, rfl⟩

theorem Walks.det (h : t.Walks a ns b) (h' : t.Walks a ns b') : b = b' := by
  induction h with
  | done =>
    cases h'
    rfl
  | step hm _ ih =>
    cases h' with
    | step hm' hw' =>
      obtain ⟨rfl, rfl⟩ := hm.det hm'
      exact ih hw'

/-- A walk stops between any two names. -/
theorem walks_append : t.Walks a (ns ++ ms) b ↔ ∃ c, t.Walks a ns c ∧ t.Walks c ms b := by
  constructor
  · intro h
    generalize hks : ns ++ ms = ks at h
    induction h generalizing ns with
    | done =>
      obtain ⟨rfl, rfl⟩ := List.append_eq_nil_iff.mp hks
      exact ⟨_, .done, .done⟩
    | @step l l₁ l' n ms' ks hm hw ih =>
      cases ns with
      | nil =>
        obtain rfl : ms = n :: ks := hks
        exact ⟨_, .done, .step hm hw⟩
      | cons n' ns =>
        obtain ⟨rfl, rfl⟩ := List.cons.inj hks
        obtain ⟨c, hc, hcb⟩ := ih (List.append_assoc ms' ns ms)
        exact ⟨c, .step hm hc, hcb⟩
  · rintro ⟨c, hc, hcb⟩
    induction hc with
    | done => exact hcb
    | step hm _ ih => exact .step hm (List.append_assoc _ _ ms ▸ ih hcb)

/-- A walk goes on from where its first names have led. -/
theorem walks_concat {c : Loc Mnt Dir} (h : t.Walks a ns c) :
    t.Walks a (ns ++ ms) b ↔ t.Walks c ms b := by
  rw [walks_append]
  constructor
  · rintro ⟨c', hc', hw⟩
    rw [h.det hc']
    exact hw
  · exact fun hw => ⟨c, h, hw⟩

/-- A walk by one name to a directory. -/
theorem walks_dir {d : Dir} (hn : Ordinary n) (he : t.entry a.dir n = some (.dir d)) :
    t.Walks a [n] b ↔ t.Crosses ⟨a.mnt, d⟩ b := by
  constructor
  · intro h
    cases h with
    | step hm hw =>
      cases hm with
      | dir _ he' hc =>
        obtain rfl := Node.dir.inj (Option.some.inj (he.symm.trans he'))
        cases hw
        exact hc
      | link _ he' => exact nomatch he.symm.trans he'
      | here => exact absurd hn ordinary_dot
      | atRoot => exact absurd hn ordinary_dotdot
      | up => exact absurd hn ordinary_dotdot
      | out => exact absurd hn ordinary_dotdot
      | off => exact absurd hn ordinary_dotdot
  · exact fun h => .step (.dir hn he h) .done

theorem crosses_none (h : t.on a = none) : t.Crosses a b ↔ b = a := by
  constructor
  · intro hc
    exact hc.det (.stay h)
  · rintro rfl
    exact .stay h

theorem crosses_some {m : Mnt} (h : t.on a = some m) :
    t.Crosses a b ↔ t.Crosses ⟨m, t.top m⟩ b := by
  constructor
  · intro hc
    cases hc with
    | stay hnone => exact nomatch hnone.symm.trans h
    | cross h' hc =>
      obtain rfl := Option.some.inj (h.symm.trans h')
      exact hc
  · exact .cross h

/-! ## Nothing unknown is walked to -/

theorem Crosses.known (h : t.Crosses a b) (ha : t.Known a) : t.Known b := by
  induction h with
  | stay _ => exact ha
  | cross hon _ ih =>
    have hm := (t.known_on hon).1
    exact ih ⟨hm, t.known_top hm⟩

theorem known_from (hl : t.Known l) (path : List UInt8) : t.Known (t.from l path) := by
  unfold «from»
  split
  · exact t.known_root
  · exact hl

theorem Moves.known (h : t.Moves a n b ms) (ha : t.Known a) : t.Known b := by
  cases h with
  | here => exact ha
  | atRoot => exact ha
  | up _ _ hc => exact hc.known ⟨ha.1, t.known_parent ha.2⟩
  | out _ _ hon => exact (t.known_on hon).2
  | off _ _ _ => exact ha
  | dir _ he hc => exact hc.known ⟨ha.1, t.known_entry he⟩
  | link _ _ => exact known_from ha _

theorem Walks.known (h : t.Walks a ns b) (ha : t.Known a) : t.Known b := by
  induction h with
  | done => exact ha
  | step hm _ ih => exact ih (hm.known ha)

theorem Names.known {path : List UInt8} (h : t.Names path l) : t.Known l :=
  h.2.known (known_from t.known_cwd path)

theorem NamesIn.known {path : List UInt8} (h : t.NamesIn path l n) : t.Known l := by
  obtain ⟨-, ns, -, hw⟩ := h
  exact hw.known (known_from t.known_cwd path)

theorem on_eq_none (h : ¬ t.Known l) : t.on l = none := by
  cases hon : t.on l with
  | none => rfl
  | some m => exact absurd (t.known_on hon).2 h

/-! ## Growth -/

/-- What `t` knows is the same in `t'`. -/
structure Extends (t t' : Tree Mnt Dir) : Prop where
  entry : ∀ {p n x}, t.entry p n = some x → t'.entry p n = some x
  parent : ∀ {d}, t.dirs d → t'.parent d = t.parent d
  top : ∀ {m}, t.mounts m → t'.top m = t.top m
  on : ∀ {l}, t.Known l → t'.on l = t.on l
  out : ∀ {l m}, t'.on l = some m → t.mounts m → t.on l = some m
  root : t'.root = t.root
  cwd : t'.cwd = t.cwd
  mounts : ∀ {m}, t.mounts m → t'.mounts m
  dirs : ∀ {d}, t.dirs d → t'.dirs d

theorem Extends.refl (t : Tree Mnt Dir) : t.Extends t :=
  ⟨id, fun _ => rfl, fun _ => rfl, fun _ => rfl, fun h _ => h, rfl, rfl, id, id⟩

theorem Crosses.extend (h : t.Extends t') (hc : t.Crosses a b) (ha : t.Known a) :
    t'.Crosses a b := by
  induction hc with
  | stay hnone => exact .stay ((h.on ha).trans hnone)
  | cross hon _ ih =>
    have hm := (t.known_on hon).1
    refine .cross ((h.on ha).trans hon) ?_
    rw [h.top hm]
    exact ih ⟨hm, t.known_top hm⟩

theorem from_extend (h : t.Extends t') (path : List UInt8) : t'.from a path = t.from a path := by
  unfold «from»
  rw [h.root]

theorem Moves.extend (h : t.Extends t') (hm : t.Moves a n b ms) (ha : t.Known a) :
    t'.Moves a n b ms := by
  cases hm with
  | here => exact .here
  | atRoot =>
    rw [← h.root]
    exact .atRoot
  | up hroot htop hc =>
    refine .up (h.root ▸ hroot) (h.top ha.1 ▸ htop) ?_
    rw [h.parent ha.2]
    exact hc.extend h ⟨ha.1, t.known_parent ha.2⟩
  | out hroot htop hon =>
    exact .out (h.root ▸ hroot) (h.top ha.1 ▸ htop) ((h.on (t.known_on hon).2).trans hon)
  | off hroot htop hoff =>
    exact .off (h.root ▸ hroot) (h.top ha.1 ▸ htop) fun l' hon => hoff l' (h.out hon ha.1)
  | dir hn he hc => exact .dir hn (h.entry he) (hc.extend h ⟨ha.1, t.known_entry he⟩)
  | @link _ _ target hn he =>
    rw [← from_extend h]
    exact .link hn (h.entry he)

theorem Walks.extend (h : t.Extends t') (hw : t.Walks a ns b) (ha : t.Known a) :
    t'.Walks a ns b := by
  induction hw with
  | done => exact .done
  | step hm _ ih => exact .step (hm.extend h ha) (ih (hm.known ha))

theorem Names.extend {path : List UInt8} (h : t.Extends t') (hl : t.Names path l) :
    t'.Names path l := by
  refine ⟨hl.1, ?_⟩
  rw [h.cwd, from_extend h]
  exact hl.2.extend h (known_from t.known_cwd path)

theorem Names.det {path : List UInt8} (h : t.Names path a) (h' : t.Names path b) : a = b :=
  h.2.det h'.2

/-- A path from the root. -/
theorem names_absolute {path : List UInt8} (h : path.head? = some 47) :
    t.Names path l ↔ t.Walks t.root (components path) l := by
  have hfrom : t.from t.cwd path = t.root := if_pos h
  unfold Names
  rw [hfrom]
  refine ⟨fun hw => hw.2, fun hw => ⟨?_, hw⟩⟩
  rintro rfl
  exact nomatch h

theorem NamesIn.last {path : List UInt8} (h : t.NamesIn path l n) :
    (components path).getLast? = some n := by
  obtain ⟨-, ns, hns, -⟩ := h
  rw [hns, List.getLast?_concat]

/-- A name in a directory, by a path from the root. -/
theorem namesIn_absolute (ns : List Name) {path : List UInt8} {k : Name}
    (h : path.head? = some 47) (hpath : components path = ns ++ [n]) :
    t.NamesIn path l k ↔ k = n ∧ Ordinary n ∧ t.Walks t.root ns l := by
  have hfrom : t.from t.cwd path = t.root := if_pos h
  unfold NamesIn
  rw [hfrom, hpath]
  constructor
  · rintro ⟨hk, ns', hns, hw⟩
    obtain ⟨rfl, hkn⟩ := List.append_inj' hns rfl
    obtain rfl := (List.cons.inj hkn).1
    exact ⟨rfl, hk, hw⟩
  · rintro ⟨rfl, hk, hw⟩
    exact ⟨hk, ns, rfl, hw⟩

/-! ## What changes a tree -/

section Operations

variable [DecidableEq Mnt] [DecidableEq Dir]

/-- A new directory `d` with the name `n` in `p`. -/
def make (t : Tree Mnt Dir) (p : Dir) (n : Name) (d : Dir) (hp : t.dirs p) : Tree Mnt Dir :=
  { t with
    entry := fun q k => if q = p ∧ k = n then some (.dir d) else t.entry q k
    parent := fun e => if e = d then p else t.parent e
    dirs := fun e => t.dirs e ∨ e = d
    known_on := fun h => ⟨(t.known_on h).1, (t.known_on h).2.1, .inl (t.known_on h).2.2⟩
    known_entry := fun h => by
      split at h
      · exact .inr (Node.dir.inj (Option.some.inj h)).symm
      · exact .inl (t.known_entry h)
    known_parent := fun h => by
      split
      · exact .inl hp
      · exact .inl (t.known_parent (h.resolve_right ‹_›))
    known_top := fun h => .inl (t.known_top h)
    known_root := ⟨t.known_root.1, .inl t.known_root.2⟩
    known_cwd := ⟨t.known_cwd.1, .inl t.known_cwd.2⟩ }

/-- The root directory `d` of a new file system. -/
def newRoot (t : Tree Mnt Dir) (d : Dir) : Tree Mnt Dir :=
  { t with
    parent := fun e => if e = d then d else t.parent e
    dirs := fun e => t.dirs e ∨ e = d
    known_on := fun h => ⟨(t.known_on h).1, (t.known_on h).2.1, .inl (t.known_on h).2.2⟩
    known_entry := fun h => .inl (t.known_entry h)
    known_parent := fun h => by
      split
      · exact .inr rfl
      · exact .inl (t.known_parent (h.resolve_right ‹_›))
    known_top := fun h => .inl (t.known_top h)
    known_root := ⟨t.known_root.1, .inl t.known_root.2⟩
    known_cwd := ⟨t.known_cwd.1, .inl t.known_cwd.2⟩ }

/-- A new mount `m` that shows `d`, on the place `l`. -/
def attach (t : Tree Mnt Dir) (l : Loc Mnt Dir) (m : Mnt) (d : Dir) (hl : t.Known l)
    (hm : ¬ t.mounts m) (hd : t.dirs d) : Tree Mnt Dir :=
  { t with
    top := fun k => if k = m then d else t.top k
    on := fun k => if k = l then some m else t.on k
    mounts := fun k => t.mounts k ∨ k = m
    once := fun {a b k} ha hb => by
      split at ha <;> split at hb
      · rw [‹a = l›, ‹b = l›]
      · exact absurd (Option.some.inj ha ▸ (t.known_on hb).1) hm
      · exact absurd (Option.some.inj hb ▸ (t.known_on ha).1) hm
      · exact t.once ha hb
    known_on := fun {a k} h => by
      split at h
      · rw [‹a = l›]
        exact ⟨.inr (Option.some.inj h).symm, .inl hl.1, hl.2⟩
      · exact ⟨.inl (t.known_on h).1, .inl (t.known_on h).2.1, (t.known_on h).2.2⟩
    known_top := fun {k} h => by
      split
      · exact hd
      · exact t.known_top (h.resolve_right ‹_›)
    known_root := ⟨.inl t.known_root.1, t.known_root.2⟩
    known_cwd := ⟨.inl t.known_cwd.1, t.known_cwd.2⟩ }

/-- The mount of the root is moved to the place `old`, and the mount `new` to where it lay.
Who stood at the root stands at the new one. -/
def pivot (t : Tree Mnt Dir) (new : Mnt) (old base : Loc Mnt Dir)
    (hnew : t.mounts new) (hold : t.Known old) (hbase : t.on base = some t.root.mnt)
    (hne : new ≠ t.root.mnt) : Tree Mnt Dir :=
  { t with
    on := fun k =>
      if k = base then some new else if k = old then some t.root.mnt
      else if t.on k = some new then none else t.on k
    root := ⟨new, t.top new⟩
    cwd := if t.cwd = t.root then ⟨new, t.top new⟩ else t.cwd
    once := fun {a b k} ha hb => by
      have hplace : ∀ {c : Loc Mnt Dir}, (if c = base then some new else if c = old then
          some t.root.mnt else if t.on c = some new then none else t.on c) = some k →
          c = base ∧ k = new ∨ c = old ∧ k = t.root.mnt ∨
            c ≠ base ∧ k ≠ new ∧ t.on c = some k := by
        intro c hc
        split at hc
        · exact .inl ⟨‹_›, (Option.some.inj hc).symm⟩
        · split at hc
          · exact .inr (.inl ⟨‹_›, (Option.some.inj hc).symm⟩)
          · split at hc
            · exact nomatch hc
            · exact .inr (.inr ⟨‹_›, fun h => ‹¬ t.on c = some new› (h ▸ hc), hc⟩)
      rcases hplace ha with ⟨rfl, rfl⟩ | ⟨rfl, rfl⟩ | ⟨hca, hka, hona⟩
      · rcases hplace hb with ⟨rfl, -⟩ | ⟨-, h⟩ | ⟨-, h, -⟩
        · rfl
        · exact absurd h hne
        · exact absurd rfl h
      · rcases hplace hb with ⟨-, h⟩ | ⟨rfl, -⟩ | ⟨hcb, -, honb⟩
        · exact absurd h.symm hne
        · rfl
        · exact absurd (t.once honb hbase) hcb
      · rcases hplace hb with ⟨-, h⟩ | ⟨-, rfl⟩ | ⟨-, -, honb⟩
        · exact absurd h hka
        · exact absurd (t.once hona hbase) hca
        · exact t.once hona honb
    known_on := fun {a k} h => by
      split at h
      · obtain rfl := Option.some.inj h
        subst a
        exact ⟨hnew, (t.known_on hbase).2⟩
      · split at h
        · obtain rfl := Option.some.inj h
          subst a
          exact ⟨t.known_root.1, hold⟩
        · split at h
          · exact nomatch h
          · exact t.known_on h
    known_root := ⟨hnew, t.known_top hnew⟩
    known_cwd := by
      split
      · exact ⟨hnew, t.known_top hnew⟩
      · exact t.known_cwd }

open Classical in
/-- The mount `m` and all that is under it are taken away. -/
noncomputable def detach (t : Tree Mnt Dir) (m : Mnt) : Tree Mnt Dir :=
  { t with
    on := fun k => if ∃ m', t.on k = some m' ∧ t.Under m m' then none else t.on k
    once := fun ha hb => by
      split at ha
      · exact nomatch ha
      · split at hb
        · exact nomatch hb
        · exact t.once ha hb
    known_on := fun h => by
      split at h
      · exact nomatch h
      · exact t.known_on h }

/-- The name `n` is taken out of the directory `p`. -/
def unlink (t : Tree Mnt Dir) (p : Dir) (n : Name) : Tree Mnt Dir :=
  { t with
    entry := fun q k => if q = p ∧ k = n then none else t.entry q k
    known_entry := fun h => by
      split at h
      · exact nomatch h
      · exact t.known_entry h }

def goTo (t : Tree Mnt Dir) (l : Loc Mnt Dir) (hl : t.Known l) : Tree Mnt Dir :=
  { t with
    cwd := l
    known_cwd := hl }

variable {p d : Dir} {m : Mnt}

omit [DecidableEq Mnt] in
/-- A new name for a new directory. -/
theorem extends_make (hp : t'.dirs p) (h : t.Extends t') (hd : ¬ t'.dirs d)
    (hn : t'.entry p n = none) : t.Extends (t'.make p n d hp) where
  entry {q k x} hx := by
    have hx' := h.entry hx
    refine (if_neg ?_).trans hx'
    rintro ⟨rfl, rfl⟩
    exact nomatch hn.symm.trans hx'
  parent {e} he := by
    have hne : e ≠ d := fun hed => hd (hed ▸ h.dirs he)
    exact (if_neg hne).trans (h.parent he)
  top := h.top
  on := h.on
  out := h.out
  root := h.root
  cwd := h.cwd
  mounts := h.mounts
  dirs he := .inl (h.dirs he)

/-- A new mount on a new place. -/
theorem extends_attach (hl : t'.Known l) (hm : ¬ t'.mounts m) (hd : t'.dirs d) (h : t.Extends t')
    (hnew : ¬ t.Known l) : t.Extends (t'.attach l m d hl hm hd) where
  entry := h.entry
  parent := h.parent
  top {k} hk := by
    have hne : k ≠ m := fun hkm => hm (hkm ▸ h.mounts hk)
    exact (if_neg hne).trans (h.top hk)
  on {k} hk := by
    have hne : k ≠ l := fun hkl => hnew (hkl ▸ hk)
    exact (if_neg hne).trans (h.on hk)
  out {a k} hon hk := by
    have hon' : (if a = l then some m else t'.on a) = some k := hon
    split at hon'
    · exact absurd (h.mounts (Option.some.inj hon' ▸ hk)) hm
    · exact h.out hon' hk
  root := h.root
  cwd := h.cwd
  mounts hk := .inl (h.mounts hk)
  dirs := h.dirs

end Operations

theorem on_detach (h : t.on l = none) (m : Mnt) : (t.detach m).on l = none := by
  unfold detach
  dsimp only
  rw [h, ite_self]

/-- The mount itself lies nowhere any more. -/
theorem on_detach_self {m : Mnt} (h : t.on l = some m) : (t.detach m).on l = none :=
  if_pos ⟨m, h, .refl⟩

/-! ## What can be seen from a mount -/

theorem Under.known {m m' : Mnt} (h : t.Under m m') (hm : t.mounts m) : t.mounts m' := by
  induction h with
  | refl => exact hm
  | tail _ hon _ =>
    obtain ⟨d, hd⟩ := hon
    exact (t.known_on hd).1

theorem Crosses.under (h : t.Crosses a b) : t.Under a.mnt b.mnt := by
  induction h with
  | stay _ => exact .refl
  | cross hon _ ih => exact .head ⟨_, hon⟩ ih

/-- No name of a path leads out of the mount of the root, up its `..` included. -/
theorem Moves.under (h : t.Moves a n b ms) (htop : t.root.dir = t.top t.root.mnt)
    (ha : t.Under t.root.mnt a.mnt) : t.Under t.root.mnt b.mnt := by
  cases h with
  | here => exact ha
  | atRoot => exact .refl
  | up _ _ hc => exact ha.trans hc.under
  | out hroot hdir hon =>
    -- only the mount of the root could be left, and its top is the root itself
    rcases Relation.ReflTransGen.cases_tail ha with hmnt | ⟨m, hm, d, hd⟩
    · refine absurd ?_ hroot
      obtain ⟨mnt, dir⟩ := a
      obtain rfl : mnt = t.root.mnt := hmnt
      exact congrArg (Loc.mk _) (hdir.trans htop.symm)
    · rw [t.once hon hd]
      exact hm
  | off _ _ _ => exact ha
  | dir _ _ hc => exact ha.trans hc.under
  | link _ _ =>
    unfold «from»
    split
    · exact .refl
    · exact ha

/-- What a path leads to from a place under the root lies under the root. -/
theorem Walks.under (h : t.Walks a ns b) (htop : t.root.dir = t.top t.root.mnt)
    (ha : t.Under t.root.mnt a.mnt) : t.Under t.root.mnt b.mnt := by
  induction h with
  | done => exact ha
  | step hm _ ih => exact ih (hm.under htop ha)

end Tree

end MountTree

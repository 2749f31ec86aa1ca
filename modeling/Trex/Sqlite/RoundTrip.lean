import Trex.Sqlite.ObjectProof

/-!
# What is built is read back

The header of a built file opens as `fileDatabase`, the database that shows the pages
of the builder.  From there the schema and the rows of every tree are read as the trees
promise.
-/

namespace Trex.Sqlite

open List BigEndian BuildObject

open Slice

/-! ## The header -/

def headerPatches (options : BuildOptions) (count : Nat) : List (Nat × Bytes) :=
  [(0, databaseMagic),
    (16, BigEndian.put 2 (if options.pageSize = maximumPageSize then 1 else options.pageSize)),
    (18, [1, 1, 0, 64, 32, 32]), (24, BigEndian.put 4 1), (28, BigEndian.put 4 count),
    (40, BigEndian.put 4 1), (44, BigEndian.put 4 4), (56, BigEndian.put 4 options.encoding),
    (60, BigEndian.put 4 options.userVersion.toNat),
    (68, BigEndian.put 4 options.applicationID.toNat), (92, BigEndian.put 4 1),
    (96, BigEndian.put 4 3046000)]

lemma writeHeader_eq (options : BuildOptions) (count : Nat) (page : Page) :
    writeHeader options count page = patched page (headerPatches options count) := rfl

lemma length_databaseMagic : databaseMagic.length = 16 := by decide

lemma headerPatches_end (options : BuildOptions) (count : Nat) : Within 100 (headerPatches options count) := by
  simp [Within, headerPatches, length_put, length_databaseMagic]

section

variable (options : BuildOptions) (count : Nat) {page : Page} (hpage : 100 ≤ page.length)

lemma headerPatches_within {page : Page} (hpage : 100 ≤ page.length) :
    Within page.length (headerPatches options count) := fun patch hpat => by
  have := headerPatches_end options count patch hpat
  omega

include hpage

lemma length_writeHeader : (writeHeader options count page).length = page.length := by
  rw [writeHeader_eq]
  exact length_patched _ _ (headerPatches_within options count hpage)

lemma getElem?_writeHeader (j : Nat) (hj : 100 ≤ j) : (writeHeader options count page)[j]? = page[j]? := by
  rw [writeHeader_eq]
  refine getElem?_patched _ _ (headerPatches_within options count hpage) j fun patch hpat => ?_
  have := headerPatches_end options count patch hpat
  omega

/-- A field of the header reads back. -/
lemma slice_writeHeader (patch : Nat × Bytes) (hpat : patch ∈ headerPatches options count) :
    slice (writeHeader options count page) patch.1 patch.2.length = patch.2 := by
  rw [writeHeader_eq]
  exact slice_patched _ _ (headerPatches_within options count hpage)
    (by simp [headerPatches, length_put, length_databaseMagic]) patch hpat

lemma getUint32_writeHeader {i v : Nat} (hv : v < 2 ^ 32) (hpat : (i, put 4 v) ∈ headerPatches options count) :
    getUint32 (writeHeader options count page) i = v := by
  have hslice := slice_writeHeader options count hpage _ hpat
  rw [length_put] at hslice
  exact getUint32_of_slice hv hslice

end

/-! ## Opening -/

/-- The database that the file should open as. -/
def fileDatabase (options : BuildOptions) (pages : Pages) (schema : List SchemaEntry) : Database where
  source := pages.flatten
  info := {
    pageSize := options.pageSize
    pageCount := pages.length
    encoding := options.encoding
    userVersion := options.userVersion.toNat
    applicationID := options.applicationID.toNat
    walFrames := 0 }
  reserved := 0
  usable := options.pageSize
  pages := ∅
  schema := schema

variable {options : BuildOptions} {pages : Pages} {n : Nat} {p : Page} {objs : List Object}
  {file : Bytes}

lemma slice_page (hsized : Sized options.pageSize pages) (hp : pageAt pages n = some p) :
    slice pages.flatten ((n - 1) * options.pageSize) options.pageSize = p := by
  have hle := pageAt_le hp
  unfold pageAt at hp
  rw [if_neg (by omega)] at hp
  exact slice_flatten pages options.pageSize hsized _ p hp

lemma page_fileDatabase (hsized : Sized options.pageSize pages) (schema : List SchemaEntry)
    (hp : pageAt pages n = some p) : (fileDatabase options pages schema).page n = .ok p := by
  have hle := pageAt_le hp
  have hlen := length_flatten pages options.pageSize hsized
  have hend : (n - 1) * options.pageSize + options.pageSize ≤ pages.flatten.length := by
    rw [hlen, ← Nat.succ_mul]
    exact Nat.mul_le_mul_right _ (by omega)
  unfold Database.page
  rw [if_neg (by simp only [fileDatabase]; omega)]
  simp only [fileDatabase, AList.lookup_empty]
  unfold readFullAt
  rw [if_pos hend, slice_page hsized hp]

def finished (options : BuildOptions) (pages : Pages) : Pages :=
  modifyPage 1 (writeHeader options pages.length) pages

section

variable {options : BuildOptions} (hopt : OptionsOk options) {pages : Pages}
  (hsized : Sized options.pageSize pages)

include hopt hsized

lemma sized_finished : Sized options.pageSize (finished options pages) := by
  refine sized_modifyPage _ _ (fun p hp => ?_) hsized
  have := hopt.pageSize
  rw [length_writeHeader _ _ (by omega), hp]

/-- The header does not hide the pages. -/
lemma sees_finished (schema : List SchemaEntry) (shown : Set Nat) (hshown : ∀ n ∈ shown, 1 ≤ n ∧ n ≤ pages.length) :
    Sees (fileDatabase options (finished options pages) schema) pages shown := by
  intro n hn
  obtain ⟨p, hp⟩ := pageAt_eq_some_of_le pages (hshown n hn).1 (hshown n hn).2
  have hlen := hsized.pageAt hp
  have hsize := hopt.pageSize
  have hshow := pageAt_modifyPage pages 1 (Nat.le_refl 1) (writeHeader options pages.length) n
  rw [hp] at hshow
  have hfile := fun q => page_fileDatabase (n := n) (p := q) (sized_finished hopt hsized) schema
  by_cases hone : n = 1
  · rw [if_pos hone] at hshow
    exact ⟨p, _, hp, hfile _ hshow, length_writeHeader _ _ (by omega),
      fun j hj => getElem?_writeHeader _ _ (by omega) j (hj hone)⟩
  · rw [if_neg hone] at hshow
    exact ⟨p, p, hp, hfile _ hshow, rfl, fun _ _ => rfl⟩

omit hopt hsized in
lemma fits_fileDatabase (schema : List SchemaEntry) : Fits (fileDatabase options pages schema) options := ⟨rfl, rfl⟩

lemma header_finished {first : Page} (hfirst : pageAt pages 1 = some first) :
    pageAt (finished options pages) 1 = some (writeHeader options pages.length first) ∧ 100 ≤ first.length := by
  have hlen := hsized.pageAt hfirst
  have hsize := hopt.pageSize
  refine ⟨?_, by omega⟩
  unfold finished
  rw [pageAt_modifyPage _ _ (Nat.le_refl 1), if_pos rfl, hfirst]
  rfl

/-- The header of a built file is accepted. -/
lemma readHeader_finished {first : Page} (hfirst : pageAt pages 1 = some first)
    (hpower : options.pageSize &&& (options.pageSize - 1) = 0) (hcount : pages.length ≤ maximumPages) :
    readHeader (finished options pages).flatten = .ok (fileDatabase options (finished options pages) []) := by
  obtain ⟨hpage, hlong⟩ := header_finished hopt hsized hfirst
  have hsize := hopt.pageSize
  have henc := hopt.encoding
  have hle := pageAt_le hfirst
  have hwriting := length_writeHeader options pages.length hlong
  have hsource := length_flatten _ _ (sized_finished hopt hsized)
  have hpages : (finished options pages).length = pages.length := length_modifyPage _ _ _
  have hslice := slice_page (sized_finished hopt hsized) hpage
  have hone : options.pageSize ≤ (finished options pages).flatten.length := by
    rw [hsource, hpages]
    exact Nat.le_mul_of_pos_left _ (by omega)
  generalize hheader : writeHeader options pages.length first = header at *
  generalize hbytes : slice (finished options pages).flatten 0 100 = bytes
  -- what the reader takes from the header is on the page
  have hread : ∀ i n, i + n ≤ 100 → slice bytes i n = slice header i n := by
    intro i n hin
    rw [← hslice, ← hbytes]
    refine ext_getElem? fun j => ?_
    simp only [getElem?_slice]
    by_cases hj : j < n
    · rw [if_pos hj, if_pos hj, if_pos (by omega), if_pos (by omega)]
      simp
    · rw [if_neg hj, if_neg hj]
  have hmagic : slice bytes 0 16 = databaseMagic := by
    have := slice_writeHeader options pages.length hlong (0, databaseMagic) (by simp [headerPatches])
    rw [hread _ _ (by omega), ← hheader]
    rwa [length_databaseMagic] at this
  have hstored : getUint16 bytes 16 = if options.pageSize = maximumPageSize then 1 else options.pageSize := by
    have := slice_writeHeader options pages.length hlong (16, _)
      (mem_cons_of_mem _ mem_cons_self)
    rw [length_put, hheader, ← hread _ _ (by omega)] at this
    refine getUint16_of_slice ?_ this
    unfold maximumPageSize
    split <;> omega
  have hreserved : bytes.getD 20 0 = 0 := by
    have := slice_writeHeader options pages.length hlong (18, [1, 1, 0, 64, 32, 32])
      (by simp [headerPatches])
    rw [hheader, ← hread _ _ (by simp)] at this
    have hat := congrArg (fun l => l[2]?) this
    rw [getElem?_slice] at hat
    rw [getD_eq_getElem?_getD]
    simpa using congrArg (Option.getD · 0) hat
  have hfield : ∀ i v, v < 2 ^ 32 → (i, put 4 v) ∈ headerPatches options pages.length →
      i + 4 ≤ 100 → getUint32 bytes i = v := by
    intro i v hv hmem hi
    rw [getUint32, hread i 4 hi, ← hheader]
    exact getUint32_writeHeader options pages.length hlong hv hmem
  have hpageSize : (if (if options.pageSize = maximumPageSize then 1 else options.pageSize) = 1 then
      maximumPageSize else if options.pageSize = maximumPageSize then 1 else options.pageSize) =
      options.pageSize := by
    by_cases hmax : options.pageSize = maximumPageSize
    · rw [if_pos hmax, if_pos rfl, hmax]
    · rw [if_neg hmax, if_neg (by omega)]
  unfold readHeader readFullAt
  rw [if_pos (by omega)]
  dsimp only
  rw [hbytes, if_neg (not_not.mpr hmagic), hstored, hpageSize, hreserved,
    hfield 56 options.encoding (by omega) (by simp [headerPatches]) (by omega),
    hfield 28 pages.length (by unfold maximumPages at hcount; omega) (by simp [headerPatches])
      (by omega),
    hfield 60 options.userVersion.toNat (UInt32.toNat_lt _) (by simp [headerPatches]) (by omega),
    hfield 68 options.applicationID.toNat (UInt32.toNat_lt _) (by simp [headerPatches]) (by omega)]
  have hphys : (finished options pages).flatten.length / options.pageSize = pages.length := by
    rw [hsource, hpages, Nat.mul_div_cancel _ (by omega)]
  rw [hphys]
  simp only [ite_self]
  unfold minimumPageSize maximumPageSize
  rw [if_neg (by omega), if_neg (by simp; omega), if_neg (by omega), if_neg (by omega)]
  simp [fileDatabase, hpages]

/-- The header on page 1 repeats what was read first. -/
lemma readSchema_finished {first : Page} (hfirst : pageAt pages 1 = some first) :
    readSchema (fileDatabase options (finished options pages) []) =
      match (fileDatabase options (finished options pages) []).btreeRows 1 100000 with
      | .error err => .error (.schema err)
      | .ok rows =>
        match schemaEntries rows with
        | .error err => .error err
        | .ok entries => .ok (fileDatabase options (finished options pages) entries) := by
  obtain ⟨hpage, hlong⟩ := header_finished hopt hsized hfirst
  have henc := hopt.encoding
  have hmagic := slice_writeHeader options pages.length hlong (0, databaseMagic)
    (by simp [headerPatches])
  rw [length_databaseMagic] at hmagic
  have hfield := fun i v => getUint32_writeHeader options pages.length hlong (i := i) (v := v)
  unfold readSchema
  rw [page_fileDatabase (sized_finished hopt hsized) [] hpage]
  dsimp only
  rw [if_neg (not_not.mpr hmagic), hfield 56 options.encoding (by omega) (by simp [headerPatches]),
    hfield 60 options.userVersion.toNat (UInt32.toNat_lt _) (by simp [headerPatches]),
    hfield 68 options.applicationID.toNat (UInt32.toNat_lt _) (by simp [headerPatches]),
    if_neg (by omega)]
  rfl

end

/-! ## The schema -/

def BuildObject.entry (object : BuildObject) : SchemaEntry :=
  ⟨object.definition.type, object.definition.name, object.definition.tableName, object.root, object.definition.sql⟩

/-- A row of the schema table reads back. -/
lemma schemaEntry_schemaRow (idx : Nat) (obj : BuildObject) (hroot : obj.root < 2 ^ 32) :
    schemaEntry (schemaRow idx obj).readBack = .ok obj.entry := by
  have hint : (Int64.ofNat obj.root).toInt = obj.root := by rw [Int64.toInt_ofNat_of_lt (by omega)]
  have huint : sqliteUint32 (.int64 (.ofNat obj.root)) = some obj.root := by
    unfold sqliteUint32
    dsimp only
    rw [hint, if_pos (by omega), Int.toNat_natCast]
  simp only [schemaEntry, schemaRow, Row.readBack, map_cons, map_nil, Value.readBack, huint]
  rfl

lemma schemaEntries_schemaRows (objs : List BuildObject) (hroot : ∀ obj ∈ objs, obj.root < 2 ^ 32) :
    schemaEntries ((objs.mapIdx schemaRow).map Row.readBack) = .ok (objs.map entry) := by
  -- the rows are numbered; the entries do not depend on the number
  suffices h : ∀ start, schemaEntries
      ((objs.mapIdx fun i => schemaRow (i + start)).map Row.readBack) = .ok (objs.map entry) from h 0
  induction objs with
  | nil => intro start; rfl
  | cons obj objs ih =>
  intro start
  have hrest := ih (fun o ho => hroot o (mem_cons_of_mem _ ho)) (start + 1)
  rw [mapIdx_cons, map_cons, schemaEntries, schemaEntry_schemaRow _ _ (hroot obj mem_cons_self)]
  simp only [add_assoc, add_comm 1 start]
  rw [hrest]
  rfl

/-- A tree that reads back is walked within the depth. -/
lemma btreeRows_reads {d : Database} {root : Nat} {rows : List Row} {shown : Set Nat}
    (hread : Reads options pages 100 ⟨root, rows, shown⟩) (hfits : Fits d options)
    (hsees : Sees d pages shown) {maximum : Nat}
    (hmax : rows.length ≤ maximum) : d.btreeRows root maximum = .ok rows := by
  unfold Database.btreeRows
  split
  · rw [length_eq_zero_iff.mp (show rows.length = 0 by omega)]
  · obtain ⟨visited, hwalk, -⟩ := hread.walk d hfits hsees maximum (maximumDepth + 1)
      (by decide) ⟨[], []⟩ (by simpa using hmax) (by simp)
    rw [hwalk]
    rfl

/-- The entry of an object is the first whose name folds to its name. -/
lemma find?_entry {fold : Nat → Nat} {objs : List BuildObject} (hnames : objs.Pairwise fun a b =>
      equalFold fold a.definition.name b.definition.name = false)
    {obj : BuildObject} (hobj : obj ∈ objs) : (objs.map entry).find? (fun entry =>
      equalFold fold entry.name obj.definition.name) = some obj.entry := by
  induction objs with
  | nil => simp at hobj
  | cons first objs ih =>
  obtain ⟨hoths, hnames⟩ := pairwise_cons.mp hnames
  rw [map_cons, find?_cons]
  rcases mem_cons.mp hobj with rfl | hobj
  · have hself : equalFold fold obj.entry.name obj.definition.name = true := by simp [equalFold, entry]
    rw [hself]
  · have hfirst : equalFold fold first.entry.name obj.definition.name = false := hoths obj hobj
    rw [hfirst]
    exact ih hnames hobj

/-! ## The round trip -/

/-- The options with their defaults. -/
def BuildOptions.defaulted (options : BuildOptions) : BuildOptions :=
  { options with
    pageSize := if options.pageSize = 0 then 4096 else options.pageSize
    encoding := if options.encoding = 0 then 1 else options.encoding }

def schemaRows (options : BuildOptions) (objects : List Object) : List Row :=
  match prepare options 0 [] objects (allocate options.pageSize []).2 with
  | .error _ => []
  | .ok (prepared, _) => prepared.mapIdx schemaRow

/-- The stages of a build. -/
structure Built (options : BuildOptions) (objects : List Object) (file : Bytes)
    (prepared : List BuildObject) (pages₁ pages₂ pages₃ : Pages) : Prop where
  optionsOk : OptionsOk options
  power : options.pageSize &&& (options.pageSize - 1) = 0
  prepareOk : prepare options 0 [] objects (allocate options.pageSize []).2 = .ok (prepared, pages₁)
  objectsOk : buildObjects options prepared pages₁ = .ok pages₂
  schemaOk : buildTable options 1 (prepared.mapIdx schemaRow) true pages₂ = .ok pages₃
  count : pages₃.length ≤ maximumPages
  fileEq : (finished options pages₃).flatten = file

/-- A build that succeeds has gone through its stages. -/
lemma build_stages (h : build objs options = .ok file) : ∃ prepared pages₁ pages₂ pages₃,
      Built options.defaulted objs file prepared pages₁ pages₂ pages₃ := by
  change buildWith options.defaulted objs = .ok file at h
  generalize options.defaulted = options at h
  unfold buildWith at h
  split at h
  · simp at h
  next hsize =>
  split at h
  · simp at h
  next henc =>
  split at h
  · simp at h
  next prepared pages₁ hprep =>
  split at h
  · simp at h
  next pages₂ hobjs =>
  split at h
  · simp at h
  next pages₃ hschema =>
  split at h
  · simp at h
  next hcount =>
  simp only [Except.ok.injEq] at h
  rw [not_or, not_or] at hsize
  refine ⟨prepared, pages₁, pages₂, pages₃, ⟨?_, by omega⟩, not_not.mp hsize.2.2, hprep,
    hobjs, hschema, by omega, h⟩
  exact ⟨not_lt.mp hsize.1, not_lt.mp hsize.2.1⟩

/-- The schema and every object of a built file read back. -/
lemma Built.reads {prepared : List BuildObject} {pages₁ pages₂ pages₃ : Pages}
    (h : Built options objs file prepared pages₁ pages₂ pages₃) (hcount : objs.length ≤ 100000)
    (hrows : ∀ obj ∈ objs, ∀ row ∈ obj.rows, row.Readable options)
    (hschema : ∀ row ∈ schemaRows options objs, row.Readable options) :
    Sized options.pageSize pages₃ ∧ 1 ≤ pages₃.length ∧ (∃ shown, Reads options pages₃ 100
        ⟨1, (prepared.mapIdx schemaRow).map Row.readBack, shown⟩ ∧ ∀ n ∈ shown, 1 ≤ n ∧ n ≤ pages₃.length) ∧
      ∀ obj ∈ prepared, obj.root < 2 ^ 32 ∧ (obj.definition.HasTree →
        obj.root ≠ 0 ∧ (obj.definition.rows.length ≤ 2 ^ 20 → ∃ shown, Reads options pages₃ 100
            ⟨obj.root, obj.definition.rows.map Row.readBack, shown⟩ ∧
          ∀ n ∈ shown, 1 ≤ n ∧ n ≤ pages₃.length)) := by
  have hmax : pages₃.length < 2 ^ 32 := by
    have := h.count
    unfold maximumPages at this
    omega
  obtain ⟨hgrow1, hprepd⟩ := prepare_ok h.prepareOk
  have hstart : ((allocate options.pageSize []).2 : Pages).length = 1 := rfl
  have hszd1 := hgrow1.sized ((grows_allocate options.pageSize ∅ []).sized (by simp [Sized]))
  have hle1 := hgrow1.le
  have hroots : ∀ obj ∈ prepared, obj.definition.HasTree → 2 ≤ obj.root ∧ obj.root ≤ pages₁.length := by
    intro obj hobj htree
    have := hprepd.tree obj hobj htree
    omega
  have hobjectRows : ∀ obj ∈ prepared, ∀ row ∈ obj.definition.rows, row.Readable options := by
    intro obj hobj row hrow
    have hmem : obj.definition ∈ objs.map Object.named := by
      rw [← hprepd.definitions]
      exact mem_map_of_mem hobj
    obtain ⟨original, horiginal, hnamed⟩ := mem_map.mp hmem
    rw [← hnamed, original.named_rows] at hrow
    exact hrows original horiginal row hrow
  obtain ⟨hgrow2, hreads⟩ := buildObjects_ok h.optionsOk h.objectsOk hobjectRows hroots
    hprepd.distinct le_rfl hszd1
  have hle2 := hgrow2.le
  have hschemaRows : schemaRows options objs = prepared.mapIdx schemaRow := by
    unfold schemaRows
    rw [h.prepareOk]
  rw [hschemaRows] at hschema
  obtain ⟨hgrow3, hschemaReads⟩ := buildTable_ok h.optionsOk h.schemaOk (by simp) hschema
    (Nat.le_refl 1) (by omega) (hgrow2.sized hszd1)
  have hle3 := hgrow3.le
  have hprepCount : prepared.length = objs.length := by simpa using congrArg length hprepd.definitions
  refine ⟨hgrow3.sized (hgrow2.sized hszd1), by omega, ?_, fun obj hobj => ⟨?_, ?_⟩⟩
  · obtain ⟨shown, hread, hshown⟩ := hschemaReads hmax (by rw [length_mapIdx]; omega)
    refine ⟨shown, hread, fun n hn => ?_⟩
    rcases hshown n hn with rfl | hin
    · omega
    · omega
  · by_cases htree : obj.definition.HasTree
    · have := hroots obj hobj htree
      omega
    · rw [hprepd.noTree obj hobj htree]
      omega
  intro htree
  have hroot := hroots obj hobj htree
  refine ⟨by omega, fun hsmall => ?_⟩
  obtain ⟨shown, hread, hshown⟩ := hreads (by omega) obj hobj htree hsmall
  refine ⟨shown, hread.mono le_rfl fun n hn => hgrow3.keep n ?_ ?_, fun n hn => ?_⟩
  · rcases hshown n hn with rfl | hin
    · omega
    · exact hin.2
  · -- page 1 is the root of no object
    rintro rfl
    rcases hshown _ hn with heq | hin
    · omega
    · omega
  · rcases hshown n hn with rfl | hin
    · omega
    · omega

/-- A file that was built opens, with its schema and the rows of every table and index. -/
theorem build_open_round_trip (fold : Nat → Nat) (objects : List Object) (options : BuildOptions)
    (file : Bytes) (hbuild : build objects options = .ok file) (hcount : objects.length ≤ 100000)
    (hnames : objects.Pairwise fun a b => equalFold fold a.name b.name = false)
    (hrows : ∀ object ∈ objects, ∀ row ∈ object.rows, row.Readable options.defaulted)
    (hschema : ∀ row ∈ schemaRows options.defaulted objects, row.Readable options.defaulted) :
    ∃ d, openDatabase file none = .ok d ∧
      d.schema.map (fun entry => (entry.type, entry.name, entry.tableName, entry.sql)) =
        objects.map (fun object => (object.type, object.name,
          if object.tableName = [] then object.name else object.tableName, object.sql)) ∧
      ∀ object ∈ objects, object.type = typeTable ∨ object.type = typeIndex →
        ∀ maximum : Int, object.rows.length ≤ maximum → maximum ≤ 1000000 →
          d.rows fold object.name maximum = .ok (object.rows.map Row.readBack) := by
  obtain ⟨prepared, pages₁, pages₂, pages, hbuilt⟩ := build_stages hbuild
  generalize options.defaulted = options at *
  obtain ⟨hsized, hpages, ⟨shown, hread, hshown⟩, hobjs⟩ := hbuilt.reads hcount hrows hschema
  have hopt := hbuilt.optionsOk
  obtain ⟨-, hprepd⟩ := prepare_ok hbuilt.prepareOk
  obtain ⟨first, hfirst⟩ := pageAt_eq_some_of_le pages (Nat.le_refl 1) hpages
  have hprepCount : prepared.length = objects.length := by simpa using congrArg List.length hprepd.definitions
  have hopen : openDatabase file none =
      .ok (fileDatabase options (finished options pages) (prepared.map BuildObject.entry)) := by
    unfold openDatabase
    rw [← hbuilt.fileEq, readHeader_finished hopt hsized hfirst hbuilt.power hbuilt.count]
    dsimp only [applyWAL]
    rw [readSchema_finished hopt hsized hfirst,
      btreeRows_reads hread (fits_fileDatabase []) (sees_finished hopt hsized [] shown hshown)
        (by simp; omega)]
    dsimp only
    rw [schemaEntries_schemaRows prepared fun object hobj => (hobjs object hobj).1]
  refine ⟨_, hopen, ?_, fun object hobj htype maximum hlow hhigh => ?_⟩
  · have hents := congrArg (List.map fun o : Object => (o.type, o.name, o.tableName, o.sql))
      hprepd.definitions
    simp only [List.map_map] at hents
    simp only [fileDatabase, List.map_map]
    refine hents.trans (List.map_congr_left fun object _ => ?_)
    simp only [Function.comp_apply, Object.named]
    split <;> rfl
  have hmem : object.named ∈ prepared.map BuildObject.definition := by
    rw [hprepd.definitions]
    exact List.mem_map_of_mem hobj
  obtain ⟨built, hbuiltMem, hdefn⟩ := List.mem_map.mp hmem
  have hprepNames : prepared.Pairwise fun a b => equalFold fold a.definition.name b.definition.name = false := by
    refine (List.pairwise_map (R := fun a b : Object => equalFold fold a.name b.name = false)).mp ?_
    rw [hprepd.definitions, List.pairwise_map]
    simpa only [Object.named_name] using hnames
  have hfind := find?_entry hprepNames hbuiltMem
  rw [hdefn, object.named_name] at hfind
  obtain ⟨-, htree⟩ := hobjs built hbuiltMem
  obtain ⟨hroot, hreads⟩ := htree (by rw [Object.HasTree, hdefn, object.named_type]; exact htype)
  rw [hdefn, object.named_rows] at hreads
  obtain ⟨shown, hread, hshown⟩ := hreads (by omega)
  unfold Database.rows
  rw [if_neg (by omega)]
  rw [show (fileDatabase options (finished options pages) _).schema.find? _ = _ from hfind]
  dsimp only
  rw [show built.entry.rootPage = built.root from rfl, if_neg hroot]
  refine btreeRows_reads hread (fits_fileDatabase _) (sees_finished hopt hsized _ shown hshown) ?_
  rw [List.length_map]
  omega

/-- A decidable form of the conditions on a row. -/
def Row.check (options : BuildOptions) (row : Row) : Bool :=
  (row.values.all fun value =>
    match value with
    | .text v => Utf.encode (Utf.runes v) == v && (Utf.runes v).all fun r => decide (Utf.Scalar r)
    | _ => true) &&
  match encodeRecord row.values options.encoding with
  | .error _ => true
  | .ok payload => decide (payload.length ≤ 2 ^ 30)

lemma Row.readable_of_check {row : Row} (h : row.check options = true) : row.Readable options := by
  unfold Row.check at h
  rw [Bool.and_eq_true, all_eq_true] at h
  refine ⟨fun val hval => ?_, fun pay hpay => ?_⟩
  · have hcheck := h.1 val hval
    cases val with
    | text v =>
      simp only [Bool.and_eq_true, beq_iff_eq, all_eq_true, decide_eq_true_eq] at hcheck
      exact ⟨Utf.runes v, hcheck.2, hcheck.1.symm⟩
    | _ => trivial
  · have hcheck := h.2
    rw [hpay] at hcheck
    exact of_decide_eq_true hcheck

def sampleObjects : List Object :=
  [⟨typeTable, [116], [], [67], [⟨some (-1), [.text [195, 169], .bool true, .int 7]⟩]⟩,
    ⟨typeIndex, [105], [116], [], [⟨none, [.text [195, 169]]⟩]⟩]

def sampleOptions : BuildOptions := ⟨512, 2, 1, 2⟩

/-- A table with one row and its index; the table reads back. -/
theorem sample_round_trip :
    ∃ file d, build sampleObjects sampleOptions = .ok file ∧ openDatabase file none = .ok d ∧
      d.rows id [116] 1 = .ok [⟨some (-1), [.text [195, 169], .int64 1, .int64 7]⟩] := by
  have hok : (build sampleObjects sampleOptions).toOption.isSome = true := by decide +kernel
  have hchecked : (sampleObjects.all fun object =>
      object.rows.all (Row.check sampleOptions.defaulted)) = true ∧
      (schemaRows sampleOptions.defaulted sampleObjects).all
        (Row.check sampleOptions.defaulted) = true := by decide +kernel
  cases hbuild : build sampleObjects sampleOptions with
  | error err =>
    rw [hbuild] at hok
    simp [Except.toOption] at hok
  | ok file =>
  obtain ⟨d, hopen, -, hrows⟩ := build_open_round_trip id sampleObjects sampleOptions file hbuild
    (by decide) (by decide +kernel)
    (fun object hobj row hrow => Row.readable_of_check (List.all_eq_true.mp
      (List.all_eq_true.mp hchecked.1 object hobj) row hrow))
    (fun row hrow => Row.readable_of_check (List.all_eq_true.mp hchecked.2 row hrow))
  exact ⟨file, d, rfl, hopen, hrows _ List.mem_cons_self (.inl rfl) 1 (by decide) (by decide)⟩

/-- `Rows` refuses a limit above one million, whatever the row count. -/
theorem rows_rejects_large_maximum :
    ∃ file d, build [⟨typeTable, [116], [], [], []⟩] ⟨512, 1, 0, 0⟩ = .ok file ∧
      openDatabase file none = .ok d ∧ d.rows id [116] 1000001 = .error (.rowLimit 1000001) := by
  have hok : ((build [⟨typeTable, [116], [], [], []⟩] ⟨512, 1, 0, 0⟩).toOption.bind fun file =>
      (openDatabase file none).toOption).isSome = true := by decide +kernel
  cases hbuild : build [⟨typeTable, [116], [], [], []⟩] ⟨512, 1, 0, 0⟩ with
  | error err =>
    rw [hbuild] at hok
    simp [Except.toOption] at hok
  | ok file =>
  cases hopen : openDatabase file none with
  | error err =>
    rw [hbuild, Except.toOption, Option.bind_some, hopen] at hok
    simp [Except.toOption] at hok
  | ok d => exact ⟨file, d, rfl, hopen, rfl⟩

end Trex.Sqlite

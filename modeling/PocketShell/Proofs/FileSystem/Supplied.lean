import PocketShell.Proofs.FileSystem.Operations
import PocketShell.Proofs.FileSystem.Layout

set_option autoImplicit false

/-! # The base is the supplied record

The base finds the node at a path by an index. Here the index is compared with the record as it was
supplied, with all that is wrong in it: walking from the root, always into a folder and to the first
child of the next name, leads to a node exactly if the index has the path (`Base.Presents`). What the
layout passes over cannot be reached by such a walk along proper names, so nothing has to be said of
it (`TreeRecord.walk_prune`).
-/

namespace PocketShell

open PocketShell.Path (AllNames ofNames isName)

namespace Base

/-- **A base presents a record**: it has just the paths that walks through the record lead to. At
each of them is the node that the walk ends at, under the last name of the path, and the children
stored there are those at the proper names in this folder, each name where the record has it
first. -/
structure Presents (base : Base) (record : TreeRecord) : Prop where
  index_iff : ∀ path, (base.index[path]?).isSome = true
    ↔ Path.IsCanonical path ∧ (record.walk (FileSystem.segmentsOf path)).isSome = true
  cell_eq : ∀ path found, Path.IsCanonical path →
    record.walk (FileSystem.segmentsOf path) = some found →
      ∃ cell, base.cell? path = some cell ∧
        cell.node = { found.node with name := Path.fileName path } ∧
        cell.children.map some
          = found.entryNames.map fun name => base.index[Path.child path name]?

/-- Where a walk through the record ends, the base shows what is left there after pruning. -/
theorem Holds.showsNode {base : Base} {record found : TreeRecord} (h : base.Holds [] record.prune)
    {names : List String} (hn : AllNames names) (hw : record.walk names = some found) :
    base.ShowsNode names found.prune := by
  have hheld := h names hn
  rwa [List.nil_append, TreeRecord.walk_prune record hn, hw] at hheld

/-- Where a walk comes to no end, the base has no path. -/
theorem Holds.index_eq_none {base : Base} {record : TreeRecord} (h : base.Holds [] record.prune)
    {names : List String} (hn : AllNames names) (hw : record.walk names = Option.none) :
    base.index[ofNames names]? = Option.none := by
  have hheld := h names hn
  rwa [List.nil_append, TreeRecord.walk_prune record hn, hw] at hheld

/-- A base with the pruned record presents the record itself. -/
theorem Holds.presents {base : Base} {record : TreeRecord} (hb : base.Numbered)
    (h : base.Holds [] record.prune) : base.Presents record := by
  refine ⟨fun path => ⟨fun hs => ?_, ?_⟩, ?_⟩
  · obtain ⟨id, hid⟩ := Option.isSome_iff_exists.mp hs
    obtain ⟨names, hn, rfl⟩ := hb.canonical hid
    refine ⟨Path.isCanonical_ofNames hn, ?_⟩
    rw [Path.segmentsOf_ofNames hn, ← Option.ne_none_iff_isSome]
    intro hw
    rw [h.index_eq_none hn hw] at hid
    cases hid
  · rintro ⟨⟨names, hn, rfl⟩, hs⟩
    rw [Path.segmentsOf_ofNames hn] at hs
    obtain ⟨found, hw⟩ := Option.isSome_iff_exists.mp hs
    obtain ⟨id, -, hid, -⟩ := h.showsNode hn hw
    exact Option.isSome_iff_exists.mpr ⟨id, hid⟩
  · rintro _ found ⟨names, hn, rfl⟩ hw
    rw [Path.segmentsOf_ofNames hn] at hw
    obtain ⟨id, cell, hid, hcell, hnode, hkids⟩ := h.showsNode hn hw
    have hid : base.index[ofNames names]? = some id := hid
    refine ⟨cell, ?_, ?_, ?_⟩
    · rw [cell?, hid, Option.bind_some, hcell]
    · rw [hnode, TreeRecord.node_prune]
      rfl
    · rw [hkids, ← TreeRecord.map_name_entries_prune, List.map_map]
      refine List.map_congr_left fun child _ => ?_
      rw [Function.comp_apply, Path.child_ofNames hn]
      rfl

end Base

namespace FileSystem

/-- **The base is equivalent to walking the supplied record.** The record of a file is refused, with
an error about the root. From the record of a folder, whatever stands in it, comes a base that
presents it. -/
theorem ofRecord_presents (record : TreeRecord) :
    (record.node.kind = .file →
      Base.ofRecord record = .error (.notAFolder "/") ∧
        ofRecord record = .error (.notAFolder "/")) ∧
    (record.node.kind = .folder →
      ∃ base, Base.ofRecord record = .ok base ∧ ofRecord record = .ok { base } ∧
        base.Presents record) := by
  constructor
  · intro hkind
    have hrefused : Base.ofRecord record = .error (.notAFolder "/") := by
      rw [Base.ofRecord, Node.isFolder, hkind]
      rfl
    exact ⟨hrefused, by rw [ofRecord, hrefused]; rfl⟩
  · intro hkind
    have hok : Base.ofRecord record = .ok (Base.none.addRecord Path.root record).1 := by
      rw [Base.ofRecord, Node.isFolder, hkind]
      rfl
    obtain ⟨hb, hholds⟩ := Base.ofRecord_holds hok
    exact ⟨_, hok, by rw [ofRecord, hok]; rfl, hholds.presents hb⟩

/-- Two folders of one name, of which the first counts, beside improper names and a file with
children. -/
theorem ofRecord_presents_twice :
    let first : TreeRecord := .folder "a" [.file "x" "1"]
    let file : TreeRecord := .mk { name := "f", kind := .file } [.file "below" ""]
    let record : TreeRecord := .folder "top"
      [.file "" "", first, .folder ".." [], file, .folder "a" [.file "y" "2"], .file "b/c" ""]
    ∃ base, Base.ofRecord record = .ok base ∧ base.Presents record ∧
      record.entryNames = ["a", "f"] ∧ file.entryNames = [] ∧
      (base.index["/a/x"]?).isSome = true ∧ ¬ (base.index["/a/y"]?).isSome = true ∧
      ¬ (base.index["/f/below"]?).isSome = true ∧
      Base.ofRecord file = .error (.notAFolder "/") := by
  intro first file record
  obtain ⟨base, hbase, -, hpresents⟩ := (ofRecord_presents record).2 rfl
  have hfile := ((ofRecord_presents file).1 rfl).1
  have hnames : AllNames ["a", "x"] :=
    Path.allNames_cons.mpr ⟨by decide, Path.allNames_cons.mpr ⟨by decide, Path.allNames_nil⟩⟩
  have hpath : Path.IsCanonical "/a/x" := ⟨["a", "x"], hnames, by decide +kernel⟩
  refine ⟨base, hbase, hpresents, by decide +kernel, by decide +kernel, ?_, ?_, ?_, hfile⟩
  · exact (hpresents.index_iff _).mpr ⟨hpath, by decide +kernel⟩
  · exact fun hs => absurd ((hpresents.index_iff _).mp hs).2 (by decide +kernel)
  · exact fun hs => absurd ((hpresents.index_iff _).mp hs).2 (by decide +kernel)

end FileSystem

end PocketShell

import PocketShell.Tree.Record

set_option autoImplicit false

/-! # The demonstration tree

A small portfolio site, shown when the host supplies no tree of its own. Its times count
days from the fifteenth of January 2024.
-/

namespace PocketShell.Demo

/-- The first day of the demonstration, half past nine in the morning. -/
def firstDay : Nat := 1705311000

/-- The time `days` days after the first. -/
def day (days : Nat) : Nat := firstDay + days * 86400

/-- The tree of a small portfolio site. -/
def tree : TreeRecord :=
  .folder "" [
    (TreeRecord.file "about.md"
      ("# About\n\nHi, I'm a developer who likes small tools and fast builds.\n" ++
        "Type 'help' to see what this terminal can do.")).withTimes (day 0) (day 30),
    (TreeRecord.file "contact.txt"
      "email: hello@example.com\ngithub: example").withTimes (day 0) (day 0),
    .folder "projects" [
      .folder "terminal" [
        (TreeRecord.file "README.md"
          "# terminal\n\nA command interpreter over a virtual filesystem.").withTimes
          (day 3) (day 12),
        (TreeRecord.file "main.rs"
          "fn main() \x7b\n    println!(\"hello\");\n\x7d").withTimes (day 3) (day 12)],
      .folder "website" [
        (TreeRecord.file "index.html" "<h1>Portfolio</h1>").withTimes (day 5) (day 20),
        (TreeRecord.file "app.js" "document.title = 'Portfolio';").withTimes (day 5) (day 21),
        (TreeRecord.file "style.css"
          "body \x7b font-family: monospace; \x7d").withTimes (day 5) (day 19)]],
    .folder "blog" [
      (TreeRecord.file "2024-02-arenas.md"
        "# Arenas\n\nIndices instead of pointers keep trees simple.").withTimes
        (day 17) (day 17),
      (TreeRecord.file "2024-03-overlays.md"
        "# Overlays\n\nA read-only base plus a writable layer on top.").withTimes
        (day 45) (day 46)],
    .folder "media" [
      ((TreeRecord.file "avatar.png" "").withSize 24576).withTimes (day 1) (day 1),
      ((TreeRecord.file "talk.mp4" "").withSize 52428800).withTimes (day 60) (day 60)],
    .folder "tmp" []]

end PocketShell.Demo

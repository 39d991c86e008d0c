import Graft.Batch.Duplicate

/-!
# Sample targets

A small router and a small listing that have every anchor of the default settings.
-/

namespace Graft.Targets

/-- A router with two routes, of which the wildcard comes last. -/
def sampleRouter : Text :=
  ("import \x7b BrowserRouter, Routes, Route \x7d from \"react-router-dom\";\n" ++
    "import Home from \"@modules/home\";\n" ++
    "import NotFound from \"./NotFound\";\n" ++
    "\n" ++
    "export default function App() \x7b\n" ++
    "  return (\n" ++
    "    <BrowserRouter>\n" ++
    "      <Routes>\n" ++
    "        <Route path=\"/\" element=\x7b<Home />\x7d />\n" ++
    "\n" ++
    "        \x7b/* 404 Fallback */\x7d\n" ++
    "        <Route path=\"*\" element=\x7b<NotFound />\x7d />\n" ++
    "      </Routes>\n" ++
    "    </BrowserRouter>\n" ++
    "  );\n" ++
    "\x7d\n").toList

/-- A listing with one imported icon and no entries. -/
def sampleListing : Text :=
  ("import \x7b Link \x7d from \"react-router-dom\";\n" ++
    "import \x7b Film \x7d from \"lucide-react\";\n" ++
    "\n" ++
    "interface Module \x7b\n" ++
    "  path: string;\n" ++
    "  title: string;\n" ++
    "  icon: React.ComponentType;\n" ++
    "\x7d\n" ++
    "\n" ++
    "const modules: Module[] = [];\n" ++
    "\n" ++
    "export default function Home() \x7b\n" ++
    "  return <ul>\x7bmodules.map((m) => <li key=\x7bm.path\x7d>" ++
    "<Link to=\x7bm.path\x7d>\x7bm.title\x7d</Link></li>)\x7d</ul>;\n" ++
    "\x7d\n").toList

/-- The sample router and the sample listing. -/
def sample : Targets := ⟨sampleRouter, sampleListing⟩

end Graft.Targets

import XEditor.Edit.Validity
import XEditor.Edit.WholeCharacters
import XEditor.Gui.EventLoop
import XEditor.Gui.Visible
import XEditor.Gui.HitTest
import XEditor.Kernel.Pipe
import XEditor.Kernel.Keyboard
import XEditor.Fs.Crash
import XEditor.Fs.ReadBack
import XEditor.Edit.SelectionKeys
import XEditor.Text.Saved
import XEditor.Kernel.FileReferences
import XEditor.Kernel.Bcache
import XEditor.Kernel.LinkCounts
import XEditor.Text.Boundaries
import XEditor.Gui.OneLine
import XEditor.Text.SearchReads
import XEditor.Gui.CloseTab
import XEditor.Gui.Navigation
import XEditor.Gui.Entries
import XEditor.Gui.PinyinBox
import XEditor.Gui.Glyphs
import XEditor.Kernel.Enlarge
import XEditor.Pinyin.Startup
import XEditor.Highlight.Keywords
import XEditor.Kernel.Names
import XEditor.Text.Alignment

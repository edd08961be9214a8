/-!
# The stylesheet of the page

## Main definitions

* `stylesheet` — the rules, in groups with an empty line before each.
-/

namespace MatlabQuality.Page

/-- The rules of the stylesheet, in groups of lines. -/
def styleGroups : List (List String) :=
  [["* \x7b box-sizing: border-box; \x7d"],
   ["body \x7b",
    "    font-family: -apple-system, BlinkMacSystemFont, 'Segoe UI', Roboto, sans-serif;",
    "    margin: 0;",
    "    padding: 20px;",
    "    background: #f5f5f5;",
    "    color: #333;",
    "\x7d"],
   [".container \x7b",
    "    max-width: 1200px;",
    "    margin: 0 auto;",
    "    background: white;",
    "    border-radius: 8px;",
    "    box-shadow: 0 2px 10px rgba(0,0,0,0.1);",
    "    overflow: hidden;",
    "\x7d"],
   [".header \x7b",
    "    background: linear-gradient(135deg, #667eea 0%, #764ba2 100%);",
    "    color: white;",
    "    padding: 30px;",
    "    text-align: center;",
    "\x7d"],
   [".header h1 \x7b margin: 0 0 10px 0; font-size: 2.2em; \x7d",
    ".header .timestamp \x7b opacity: 0.85; \x7d"],
   [".content \x7b padding: 30px; \x7d"],
   [".quality-score \x7b text-align: center; margin: 30px 0; \x7d",
    ".quality-circle \x7b",
    "    width: 120px;",
    "    height: 120px;",
    "    border-radius: 50%;",
    "    margin: 0 auto 15px auto;",
    "    display: flex;",
    "    align-items: center;",
    "    justify-content: center;",
    "    font-size: 1.8em;",
    "    font-weight: bold;",
    "    color: white;",
    "\x7d"],
   [".score-excellent \x7b background: #27ae60; \x7d",
    ".score-good \x7b background: #f39c12; \x7d",
    ".score-poor \x7b background: #e74c3c; \x7d"],
   [".summary-grid \x7b",
    "    display: grid;",
    "    grid-template-columns: repeat(auto-fit, minmax(200px, 1fr));",
    "    gap: 20px;",
    "    margin-bottom: 30px;",
    "\x7d"],
   [".metric-card \x7b",
    "    background: #f8f9fa;",
    "    border-radius: 8px;",
    "    padding: 20px;",
    "    text-align: center;",
    "    border-left: 4px solid #667eea;",
    "\x7d"],
   [".metric-value \x7b font-size: 2em; font-weight: bold; color: #2c3e50; \x7d",
    ".metric-label \x7b color: #666; font-size: 0.9em; \x7d"],
   [".section \x7b margin-bottom: 40px; \x7d",
    ".section-title \x7b",
    "    color: #2c3e50;",
    "    border-bottom: 2px solid #ecf0f1;",
    "    padding-bottom: 10px;",
    "    margin-bottom: 20px;",
    "\x7d"],
   [".severity-summary \x7b margin-bottom: 20px; \x7d"],
   [".code-smells \x7b display: grid; gap: 15px; \x7d"],
   [".smell-item \x7b",
    "    border: 1px solid #ddd;",
    "    border-left: 4px solid #95a5a6;",
    "    border-radius: 6px;",
    "    padding: 15px;",
    "\x7d"],
   [".smell-item.high \x7b border-left-color: #e74c3c; \x7d",
    ".smell-item.medium \x7b border-left-color: #f39c12; \x7d",
    ".smell-item.low \x7b border-left-color: #27ae60; \x7d"],
   [".smell-header \x7b",
    "    display: flex;",
    "    justify-content: space-between;",
    "    align-items: center;",
    "    margin-bottom: 10px;",
    "\x7d"],
   [".smell-type \x7b font-weight: bold; color: #2c3e50; \x7d",
    ".smell-description \x7b color: #666; margin-bottom: 8px; \x7d",
    ".smell-suggestion \x7b color: #2980b9; font-style: italic; \x7d",
    ".smell-location \x7b margin-top: 8px; \x7d"],
   [".severity-badge \x7b",
    "    padding: 4px 8px;",
    "    border-radius: 12px;",
    "    font-size: 0.8em;",
    "    font-weight: bold;",
    "    text-transform: uppercase;",
    "    color: white;",
    "\x7d"],
   [".severity-high \x7b background: #e74c3c; \x7d",
    ".severity-medium \x7b background: #f39c12; \x7d",
    ".severity-low \x7b background: #27ae60; \x7d"],
   [".file-path \x7b",
    "    font-family: monospace;",
    "    background: #f8f9fa;",
    "    padding: 2px 6px;",
    "    border-radius: 3px;",
    "\x7d"],
   [".recommendations \x7b",
    "    background: #e8f5e8;",
    "    border-radius: 8px;",
    "    padding: 20px;",
    "    margin-bottom: 40px;",
    "\x7d"],
   [".recommendations h3 \x7b margin-top: 0; color: #27ae60; \x7d",
    ".recommendations li \x7b margin-bottom: 8px; \x7d"],
   [".metrics-table \x7b width: 100%; border-collapse: collapse; \x7d",
    ".metrics-table th,",
    ".metrics-table td \x7b padding: 12px; text-align: left; border-bottom: 1px solid #ddd; \x7d",
    ".metrics-table th \x7b background: #f8f9fa; color: #2c3e50; \x7d"],
   [".footer \x7b",
    "    background: #34495e;",
    "    color: white;",
    "    text-align: center;",
    "    padding: 20px;",
    "\x7d"],
   ["@media (max-width: 768px) \x7b",
    "    .summary-grid \x7b grid-template-columns: 1fr; \x7d",
    "    .smell-header \x7b flex-direction: column; align-items: flex-start; \x7d",
    "\x7d"]]

/-- The stylesheet: an empty line before each group, and a line feed at the end. -/
def stylesheet : String :=
  String.join (styleGroups.map fun group => "\n" ++ String.join (group.map (· ++ "\n")))

end MatlabQuality.Page
